import SqlConsole.Text.Letter

/-! Dates and times of a configuration document: a local date, a local time, or both with an
optional distance from universal time. Only days that exist and times that a clock with leap
seconds can show are admitted. -/
namespace SqlConsole

namespace Toml

namespace Moment

def isLeap (year : Nat) : Bool := (year % 4 = 0 && year % 100 ≠ 0) || year % 400 = 0

def daysIn (year month : Nat) : Nat :=
  match month with
  | 2 => if isLeap year then 29 else 28
  | 4 | 6 | 9 | 11 => 30
  | _ => 31

def twoDigits? : List Char → Option (Nat × List Char)
  | a :: b :: rest => if isDigit a && isDigit b then some (decimalValue [a, b], rest) else none
  | _ => none

/-- A number between `low` and `high` of exactly two digits behind the character `mark`. -/
def behindMark? (mark : Char) (low high : Nat) : List Char → Option (Nat × List Char)
  | c :: rest => do
    if c ≠ mark then none
    let (n, after) ← twoDigits? rest
    if low ≤ n ∧ n ≤ high then return (n, after) else none
  | [] => none

/-- What follows a date `YYYY-MM-DD`. -/
def date? (text : List Char) : Option (List Char) := do
  let (century, rest) ← twoDigits? text
  let (years, rest) ← twoDigits? rest
  let (month, rest) ← behindMark? '-' 1 12 rest
  let (_, rest) ← behindMark? '-' 1 (daysIn (100 * century + years) month) rest
  return rest

/-- What follows the fraction of a second, which may be absent. -/
def fraction? : List Char → Option (List Char)
  | '.' :: c :: rest => if isDigit c then some (rest.dropWhile isDigit) else none
  | '.' :: [] => none
  | rest => some rest

/-- What follows a time `HH:MM`, `HH:MM:SS` or `HH:MM:SS.F`. -/
def time? (text : List Char) : Option (List Char) := do
  let (hour, rest) ← twoDigits? text
  if 23 < hour then none
  let (_, rest) ← behindMark? ':' 0 59 rest
  match rest with
  | ':' :: _ =>
    let (_, rest) ← behindMark? ':' 0 60 rest
    fraction? rest
  | _ => return rest

/-- Whether the text is nothing or a distance `Z`, `+HH:MM` or `-HH:MM`. -/
def isDistance : List Char → Bool
  | [] => true
  | ['Z'] | ['z'] => true
  | c :: rest =>
    (c = '+' || c = '-') && match twoDigits? rest with
      | some (hour, after) =>
        hour ≤ 23 && (behindMark? ':' 0 59 after).any fun (_, behind) => behind.isEmpty
      | none => false

def isDate (text : List Char) : Bool := (date? text).any List.isEmpty

def isTime (text : List Char) : Bool := (time? text).any List.isEmpty

def isDateTime (text : List Char) : Bool :=
  match date? text with
  | some (c :: rest) =>
    (c = 'T' || c = 't' || c = ' ') && (time? rest).any isDistance
  | _ => false

def isMoment (text : List Char) : Bool := isDate text || isTime text || isDateTime text

end Moment

end Toml

end SqlConsole
