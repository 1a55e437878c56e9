import SqlConsole.Binary64.Nearest

/-! The decimal with the fewest significant digits that reads back as a given double, and of
those the one nearest to it. Decimals are counted in units of `10 ^ -1074`; in these units
every finite double is a whole number, so the search is over naturals and always ends. -/
namespace SqlConsole

namespace Binary64

/-- The number of decimal units in one. -/
def decimalScale : Nat := Nat.pow 10 1074

/-- The finite magnitude `b` in units of `10 ^ -1074`, without rounding: one binary unit is
`5 ^ 1074` of them. -/
def exactDecimal (b : Nat) : Nat := units b * Nat.pow 5 1074

/-- Whether `count` decimal units round to the magnitude `b`. -/
def readsBack (b count : Nat) : Bool := nearestMagnitude count decimalScale = b

/-- Of the neighbours `low` and `high` of `exact` one that fits. If both do, the nearer one; of
two equally near, `low` if it is the even multiple. -/
def neighbour? (exact low high : Nat) (lowIsEven lowFits highFits : Bool) : Option Nat :=
  match lowFits, highFits with
  | true, true =>
    if exact - low < high - exact then some low
    else if high - exact < exact - low then some high
    else if lowIsEven then some low
    else some high
  | true, false => some low
  | false, true => some high
  | false, false => none

/-- The multiple of `step` next to `exact` that reads back as `b`. Of two, the nearer one; of
two equally near, the one with an even last digit. -/
def onGrid? (b exact step : Nat) : Option Nat :=
  let low := exact / step * step
  let high := low + step
  neighbour? exact low high (exact / step % 2 = 0) (readsBack b low) (readsBack b high)

/-- Tries grids with one significant digit more each time. -/
def shortestFrom (b exact : Nat) : Nat → Nat
  | 0 => exact
  | zeros + 1 => (onGrid? b exact (Nat.pow 10 (zeros + 1))).getD (shortestFrom b exact zeros)

/-- The shortest decimal of the finite magnitude `b`, in units of `10 ^ -1074`. -/
def shortest (b : Nat) : Nat :=
  let exact := exactDecimal b
  shortestFrom b exact ((Nat.toDigits 10 exact).length - 1)

end Binary64

end SqlConsole
