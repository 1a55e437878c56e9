import SqlConsole.Binary64.Basic
import SqlConsole.Text.Letter

/-! The double nearest to an exact quotient, ties going to the even significand. A quotient
is measured in the smallest unit, rounded once to fifty-three significant bits (or to whole
units when it is smaller), and packed; what does not fit is infinite. -/
namespace SqlConsole

/-- The whole number nearest to `num / den`; a tie goes to the even one. -/
def roundHalfEven (num den : Nat) : Nat :=
  let quotient := num / den
  let remainder := num % den
  if 2 * remainder < den then quotient
  else if den < 2 * remainder then quotient + 1
  else quotient + quotient % 2

namespace Binary64

/-- The bits dropped below the significand of a quotient of `units` whole units. -/
def dropped (units : Nat) : Nat := Nat.log2 units - 52

/-- Magnitude of the double nearest to `num / den`. Rounding up to the next power of two
carries into the exponent bits, which is the right pattern for it. -/
def nearestMagnitude (num den : Nat) : Nat :=
  let scaled := num * unitScale
  let k := dropped (scaled / den)
  min (k * Nat.pow 2 52 + roundHalfEven scaled (den * Nat.pow 2 k)) infinityBits

def nearest (num den : Nat) : Binary64 := ⟨(nearestMagnitude num den).toUInt64⟩

/-- The double nearest to the decimal numeral `whole.fraction`. -/
def ofNumeral (whole fraction : List Char) : Binary64 :=
  nearest (decimalValue (whole ++ fraction)) (Nat.pow 10 fraction.length)

/-- The double that a plain decimal text denotes: digits, with at most one point among them. -/
def ofText? (text : String) : Option Binary64 :=
  let whole := text.toList.takeWhile isDigit
  match text.toList.dropWhile isDigit with
  | [] => if whole = [] then none else some (ofNumeral whole [])
  | '.' :: fraction =>
    if whole ++ fraction ≠ [] ∧ fraction.all isDigit then some (ofNumeral whole fraction)
    else none
  | _ => none

end Binary64

end SqlConsole
