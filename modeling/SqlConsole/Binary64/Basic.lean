/-! Double-precision numbers as their 64-bit patterns: one sign bit, eleven exponent bits
and fifty-two fraction bits. The magnitude of a finite number is a whole count of the
smallest positive one, `2 ^ -1074`, so every comparison here is between naturals. -/
namespace SqlConsole

structure Binary64 where
  bits : UInt64
  deriving DecidableEq, Repr

namespace Binary64

def negative (x : Binary64) : Bool := Nat.pow 2 63 ≤ x.bits.toNat

/-- The pattern without its sign bit. -/
def magnitude (x : Binary64) : Nat := x.bits.toNat % Nat.pow 2 63

/-- The pattern of infinity. Larger magnitudes are not numbers. -/
def infinityBits : Nat := 2047 * Nat.pow 2 52

def isFinite (x : Binary64) : Bool := x.magnitude < infinityBits

/-- The significand of the finite magnitude `b`, with the leading one that normal numbers
leave out of their fraction. -/
def significand (b : Nat) : Nat :=
  if b < Nat.pow 2 52 then b else Nat.pow 2 52 + b % Nat.pow 2 52

/-- How far the significand of the finite magnitude `b` is shifted from the unit
`2 ^ -1074`. -/
def shift (b : Nat) : Nat := b / Nat.pow 2 52 - 1

/-- The finite magnitude `b` in units of `2 ^ -1074`. -/
def units (b : Nat) : Nat := significand b * Nat.pow 2 (shift b)

/-- The number of units in one: `1 = unitScale * 2 ^ -1074`. -/
def unitScale : Nat := Nat.pow 2 1074

end Binary64

end SqlConsole
