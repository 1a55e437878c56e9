import Mathlib.Algebra.Field.Rat
import SqlConsole.Text.Letter
import SqlConsole.Toml.Quoted

/-! A reader for structured values in their standard form. It knows nothing of how reports are
laid out: white space may stand around every sign, members come in any order, all escapes are
understood, and numbers have their exact value. What is not in the form gives nothing. -/
namespace SqlConsole

namespace Json

/-- What a document says. -/
inductive Content where
  | null
  | boolean (value : Bool)
  | number (value : ℚ)
  | string (value : String)
  | array (items : List Content)
  | object (members : List (String × Content))

namespace Reader

open Toml.Quoted (hexRun? hexRun?_length)

def isWhite (c : Char) : Bool := c = ' ' || c = '\t' || c = '\n' || c = '\r'

def skipWhite (text : List Char) : List Char := text.dropWhile isWhite

/-! ## Strings -/

/-- The character that two halves make. -/
def joined? (high low : Nat) : Option Char :=
  if 0xd800 ≤ high ∧ high < 0xdc00 ∧ 0xdc00 ≤ low ∧ low < 0xe000 then
    some (Char.ofNat (0x10000 + 0x400 * (high - 0xd800) + (low - 0xdc00)))
  else none

/-- The character of a code of sixteen bits, or of two of them that are halves of one character,
read behind `\u`. -/
def coded? (text : List Char) : Option (Char × List Char) := do
  let (code, rest) ← hexRun? 4 0 text
  if code.isValidChar then return (Char.ofNat code, rest)
  else match rest with
    | '\\' :: 'u' :: second => do
      let (low, rest) ← hexRun? 4 0 second
      return (← joined? code low, rest)
    | _ => none

/-- The character that an escape stands for, read behind its backslash. -/
def escape? : List Char → Option (Char × List Char)
  | [] => none
  | c :: rest =>
    match c with
    | '"' => some ('"', rest)
    | '\\' => some ('\\', rest)
    | '/' => some ('/', rest)
    | 'b' => some ('\x08', rest)
    | 'f' => some ('\x0c', rest)
    | 'n' => some ('\n', rest)
    | 'r' => some ('\r', rest)
    | 't' => some ('\t', rest)
    | 'u' => coded? rest
    | _ => none

theorem coded?_length {text rest : List Char} {c : Char} (h : coded? text = some (c, rest)) :
    rest.length ≤ text.length := by
  obtain ⟨⟨code, behind⟩, found, valid⟩ := Option.bind_eq_some_iff.mp h
  have shorter := hexRun?_length found
  dsimp only at valid
  split at valid
  · cases valid
    exact shorter
  · split at valid
    next second =>
      obtain ⟨⟨low, last⟩, foundLow, halves⟩ := Option.bind_eq_some_iff.mp valid
      have shorterLow := hexRun?_length foundLow
      obtain ⟨d, -, same⟩ := Option.bind_eq_some_iff.mp halves
      cases same
      simp only [List.length_cons] at shorter
      exact Nat.le_trans shorterLow (by omega)
    next => cases valid

theorem escape?_length {text rest : List Char} {c : Char} (h : escape? text = some (c, rest)) :
    rest.length < text.length := by
  cases text with
  | nil => cases h
  | cons d text =>
    unfold escape? at h
    dsimp only at h
    split at h
    all_goals first
      | exact Nat.lt_succ_of_le (coded?_length h)
      | (cases h; exact Nat.lt_succ_self _)
      | cases h

/-- The characters of a string up to its closing mark, and what follows. Control characters must
be escaped. -/
def string? (text : List Char) : Option (List Char × List Char) :=
  match text with
  | [] => none
  | c :: rest =>
    if c = '"' then some ([], rest)
    else if c = '\\' then
      match _h : escape? rest with
      | none => none
      | some (d, after) => (string? after).map fun (body, behind) => (d :: body, behind)
    else if c.toNat < 32 then none
    else (string? rest).map fun (body, behind) => (c :: body, behind)
termination_by text.length
decreasing_by
  · exact Nat.lt_succ_of_lt (escape?_length _h)
  · exact Nat.lt_succ_self _

/-! ## Numbers -/

/-- One digit or more. -/
def digits? (text : List Char) : Option (List Char × List Char) :=
  match text.takeWhile isDigit with
  | [] => none
  | digits => some (digits, text.dropWhile isDigit)

/-- The digits before the point. Only a single one may be zero at the front. -/
def whole? (text : List Char) : Option (List Char × List Char) := do
  let (digits, rest) ← digits? text
  if digits.head? = some '0' ∧ digits ≠ ['0'] then none else return (digits, rest)

/-- The digits behind the point, none if there is no point. -/
def fraction? : List Char → Option (List Char × List Char)
  | '.' :: rest => digits? rest
  | text => some ([], text)

/-- A power of ten, zero if there is none. -/
def power? : List Char → Option (ℤ × List Char)
  | [] => some (0, [])
  | c :: rest =>
    if c = 'e' ∨ c = 'E' then
      match rest with
      | '-' :: text => (digits? text).map fun (digits, rest) => (-(decimalValue digits : ℤ), rest)
      | '+' :: text => (digits? text).map fun (digits, rest) => ((decimalValue digits : ℤ), rest)
      | text => (digits? text).map fun (digits, rest) => ((decimalValue digits : ℤ), rest)
    else some (0, c :: rest)

def unsigned? (text : List Char) : Option (ℚ × List Char) := do
  let (whole, rest) ← whole? text
  let (fraction, rest) ← fraction? rest
  let (power, rest) ← power? rest
  return (decimalValue (whole ++ fraction) * 10 ^ (power - fraction.length), rest)

def number? : List Char → Option (ℚ × List Char)
  | '-' :: rest => (unsigned? rest).map fun (value, rest) => (-value, rest)
  | text => unsigned? text

/-! ## Values -/

/-- The content that a word stands for, read behind its first letter. -/
def word? (letters : String) (content : Content) (text : List Char) :
    Option (Content × List Char) :=
  if letters.toList.isPrefixOf text then some (content, text.drop letters.toList.length) else none

mutual

/-- A value and what follows it. `fuel` bounds the number of reading steps. -/
def value? : Nat → List Char → Option (Content × List Char)
  | 0, _ => none
  | _ + 1, [] => none
  | fuel + 1, c :: rest =>
    if c = '"' then (string? rest).map fun (body, rest) => (.string (String.ofList body), rest)
    else if c = '[' then
      match skipWhite rest with
      | ']' :: rest => some (.array [], rest)
      | start => (items? fuel start).map fun (items, rest) => (.array items, rest)
    else if c = '\x7b' then
      match skipWhite rest with
      | '\x7d' :: rest => some (.object [], rest)
      | start => (members? fuel start).map fun (members, rest) => (.object members, rest)
    else if c = 'n' then word? "ull" .null rest
    else if c = 't' then word? "rue" (.boolean true) rest
    else if c = 'f' then word? "alse" (.boolean false) rest
    else (number? (c :: rest)).map fun (value, rest) => (.number value, rest)

/-- One item or more, up to the closing bracket. -/
def items? : Nat → List Char → Option (List Content × List Char)
  | 0, _ => none
  | fuel + 1, text => do
    let (item, rest) ← value? fuel text
    match skipWhite rest with
    | ']' :: rest => return ([item], rest)
    | ',' :: rest => do
      let (items, rest) ← items? fuel (skipWhite rest)
      return (item :: items, rest)
    | _ => none

/-- One member or more, up to the closing brace. -/
def members? : Nat → List Char → Option (List (String × Content) × List Char)
  | 0, _ => none
  | _ + 1, [] => none
  | fuel + 1, c :: text =>
    if c = '"' then do
      let (key, rest) ← string? text
      match skipWhite rest with
      | ':' :: rest => do
        let (value, rest) ← value? fuel (skipWhite rest)
        match skipWhite rest with
        | '\x7d' :: rest => return ([(String.ofList key, value)], rest)
        | ',' :: rest => do
          let (members, rest) ← members? fuel (skipWhite rest)
          return ((String.ofList key, value) :: members, rest)
        | _ => none
      | _ => none
    else none

end

end Reader

/-- The content of a text that is one value with nothing but white space around it. -/
def read? (text : String) : Option Content := do
  let (content, rest) ←
    Reader.value? (2 * text.toList.length + 1) (Reader.skipWhite text.toList)
  if Reader.skipWhite rest = [] then return content else none

example : (read? " \x7b\"a\": [-1.50e1, \"\\ud83d\\ude00\"]\x7d\n").isSome := by decide +kernel

example : (read? "[1, 2,]").isNone := by decide +kernel

end Json

end SqlConsole
