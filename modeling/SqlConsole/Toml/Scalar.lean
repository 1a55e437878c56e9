import SqlConsole.Binary64.Nearest
import SqlConsole.Toml.Moment
import SqlConsole.Toml.Value

/-! Values of a configuration document that are written without quote marks or brackets:
booleans, whole and real numbers, dates and times. Whole numbers must fit into 128 bits and
real ones must not be so large that they round to infinity. -/
namespace SqlConsole

namespace Toml

namespace Scalar

/-- The digits of a run in which single underscores may stand between digits. -/
def digits? (digit : Char → Bool) : List Char → Option (List Char)
  | [] => none
  | [c] => if digit c then some [c] else none
  | c :: '_' :: d :: rest =>
    if digit c then (digits? digit (d :: rest)).map (c :: ·) else none
  | c :: d :: rest => if digit c then (digits? digit (d :: rest)).map (c :: ·) else none

/-- A whole decimal number does not begin with a zero unless it is a single one. -/
def whole? (text : List Char) : Option (List Char) :=
  if text.head? = some '0' ∧ text.length ≠ 1 then none else digits? isDigit text

def baseDigit (base : Nat) (c : Char) : Option Nat :=
  let value :=
    if isDigit c then digitValue c
    else if 'a' ≤ c && c ≤ 'f' then c.toNat - 'a'.toNat + 10
    else if 'A' ≤ c && c ≤ 'F' then c.toNat - 'A'.toNat + 10
    else base
  if value < base then some value else none

def based? (base : Nat) (text : List Char) : Option Nat := do
  let digits ← digits? (fun c => (baseDigit base c).isSome) text
  return digits.foldl (fun n c => base * n + (baseDigit base c).getD 0) 0

def fitted? (n : Int) : Option Value :=
  if -(Nat.pow 2 127 : Int) ≤ n ∧ n < Nat.pow 2 128 then some (.integer n) else none

/-- Splits at the first character of a class, if there is one. -/
def splitAt? (separator : Char → Bool) (text : List Char) : List Char × Option (List Char) :=
  match text.dropWhile fun c => !separator c with
  | [] => (text, none)
  | _ :: rest => (text.takeWhile fun c => !separator c, some rest)

def signed? (text : List Char) : Bool × List Char :=
  match text with
  | '-' :: rest => (true, rest)
  | '+' :: rest => (false, rest)
  | rest => (false, rest)

def withSign (negative : Bool) (magnitude : Nat) : Binary64 :=
  ⟨(magnitude + if negative then Nat.pow 2 63 else 0).toUInt64⟩

/-- The double nearest to `digits` times a power of ten, unless it is infinite. Powers far
outside the range of doubles are decided without computing them. -/
def scaled? (digits : List Char) (power : Int) : Option Nat :=
  let n := decimalValue digits
  let size : Int := (Nat.toDigits 10 n).length + power
  if n = 0 ∨ size < -400 then some 0
  else if 400 < size then none
  else
    let magnitude :=
      if 0 ≤ power then Binary64.nearestMagnitude (n * Nat.pow 10 power.toNat) 1
      else Binary64.nearestMagnitude n (Nat.pow 10 (-power).toNat)
    if magnitude < Binary64.infinityBits then some magnitude else none

def exponent? (text : List Char) : Option Int := do
  let (negative, rest) := signed? text
  let n := decimalValue (← digits? isDigit rest)
  return if negative then -n else n

def unsigned? (negative : Bool) (text : List Char) : Option Value := do
  let (mantissa, exponent) := splitAt? (fun c => c = 'e' || c = 'E') text
  let (before, behind) := splitAt? (· = '.') mantissa
  let first ← whole? before
  let second ← match behind with
    | none => pure []
    | some fraction => digits? isDigit fraction
  let power ← match exponent with
    | none => pure 0
    | some e => exponent? e
  if behind.isNone ∧ exponent.isNone then
    let n : Int := decimalValue first
    fitted? (if negative then -n else n)
  else
    let magnitude ← scaled? (first ++ second) (power - second.length)
    return .real (withSign negative magnitude)

/-- The pattern of the quiet value that is not a number. -/
def notANumber : Nat := 2047 * Nat.pow 2 52 + Nat.pow 2 51

def number? (text : List Char) : Option Value :=
  match text with
  | '0' :: 'x' :: rest => (based? 16 rest).bind fun n => fitted? n
  | '0' :: 'o' :: rest => (based? 8 rest).bind fun n => fitted? n
  | '0' :: 'b' :: rest => (based? 2 rest).bind fun n => fitted? n
  | text =>
    match signed? text with
    | (negative, ['i', 'n', 'f']) => some (.real (withSign negative Binary64.infinityBits))
    | (negative, ['n', 'a', 'n']) => some (.real (withSign negative notANumber))
    | (negative, rest) => unsigned? negative rest

def value? (text : List Char) : Option Value :=
  if text = "true".toList then some (.boolean true)
  else if text = "false".toList then some (.boolean false)
  else if Moment.isMoment text then some (.moment (String.ofList text))
  else number? text

end Scalar

end Toml

end SqlConsole
