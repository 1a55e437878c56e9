import SqlConsole.Binary64.Shortest

/-! How a double is written: its shortest decimal, positional when the first digit stands
between the fifth place behind the point and the sixteenth before it, else with an exponent
that always shows its sign. A positional numeral always has a fraction. -/
namespace SqlConsole

namespace Numeral

/-- Without the zeros at the end. -/
def trimZeros (digits : List Char) : List Char :=
  (digits.reverse.dropWhile (· = '0')).reverse

/-- Digits `digits` of which the first `before` stand before the point. -/
def positional (digits : List Char) (before : Nat) : List Char :=
  if digits.length ≤ before then
    digits ++ List.replicate (before - digits.length) '0' ++ ['.', '0']
  else digits.take before ++ '.' :: digits.drop before

/-- Digits `digits` with `zeros` zeros between the point and the first of them. -/
def behindPoint (digits : List Char) (zeros : Nat) : List Char :=
  '0' :: '.' :: (List.replicate zeros '0' ++ digits)

/-- One digit before the point and the power of ten by which to multiply. -/
def scientific (digits : List Char) (power : Int) : List Char :=
  digits.take 1 ++ (if digits.length ≤ 1 then [] else '.' :: digits.drop 1) ++
    'e' :: (if power < 0 then '-' else '+') :: Nat.toDigits 10 power.natAbs

/-- Significant digits `digits`, the first of which counts `10 ^ power`. -/
def layout (digits : List Char) (power : Int) : List Char :=
  if 0 ≤ power ∧ power ≤ 15 then positional digits (power.toNat + 1)
  else if -5 ≤ power ∧ power < 0 then behindPoint digits ((-power).toNat - 1)
  else scientific digits power

/-- The numeral of the finite magnitude `b`. -/
def ofMagnitude (b : Nat) : List Char :=
  if b = 0 then ['0', '.', '0']
  else
    let digits := Nat.toDigits 10 (Binary64.shortest b)
    layout (trimZeros digits) ((digits.length : Int) - 1075)

/-- The numeral of a finite double. Zero keeps its sign. -/
def ofBinary64 (x : Binary64) : List Char :=
  if x.negative then '-' :: ofMagnitude x.magnitude else ofMagnitude x.magnitude

end Numeral

end SqlConsole
