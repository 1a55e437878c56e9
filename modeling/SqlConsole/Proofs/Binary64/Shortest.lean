import Mathlib.Algebra.Field.Rat
import SqlConsole.Binary64.Shortest

/-! The shortest decimal of a double and its value. It reads back as the double, so only zero has
a decimal that is zero. -/
namespace SqlConsole

namespace Binary64

theorem roundHalfEven_zero (den : Nat) : roundHalfEven 0 den = 0 := by
  unfold roundHalfEven
  rw [Nat.zero_div, Nat.zero_mod]
  dsimp only
  split
  · rfl
  · exact if_neg (Nat.not_lt_zero den)

theorem nearestMagnitude_zero (den : Nat) : nearestMagnitude 0 den = 0 := by
  have kept : dropped 0 = 0 := rfl
  simp only [nearestMagnitude, Nat.zero_mul, Nat.zero_div, kept, roundHalfEven_zero, Nat.add_zero,
    Nat.zero_min]

/-- Stated for any exponent, so that no power is ever computed. -/
theorem natPow_pos {base : Nat} (positive : 0 < base) (exponent : Nat) :
    0 < Nat.pow base exponent :=
  Nat.pow_pos positive

theorem significand_pos {b : Nat} (nonzero : b ≠ 0) : 0 < significand b := by
  unfold significand
  split
  · exact Nat.pos_of_ne_zero nonzero
  · exact Nat.add_pos_left (natPow_pos (by decide) _) _

theorem exactDecimal_pos {b : Nat} (nonzero : b ≠ 0) : 0 < exactDecimal b := by
  have units : 0 < units b := Nat.mul_pos (significand_pos nonzero) (natPow_pos (by decide) _)
  have scale : ∀ n, 0 < Nat.pow 5 n := natPow_pos (by decide)
  exact Nat.mul_pos units (scale 1074)

theorem exactDecimal_zero : exactDecimal 0 = 0 := by
  have none : units 0 = 0 := Nat.zero_mul _
  rw [exactDecimal, none]
  exact Nat.zero_mul (Nat.pow 5 1074)

theorem neighbour?_cases {exact low high count : Nat} {lowIsEven lowFits highFits : Bool}
    (found : neighbour? exact low high lowIsEven lowFits highFits = some count) :
    (count = low ∧ lowFits = true) ∨ (count = high ∧ highFits = true) := by
  cases lowFits with
  | false =>
    cases highFits with
    | false => cases found
    | true => exact .inr ⟨(Option.some.inj found).symm, rfl⟩
  | true =>
    cases highFits with
    | false => exact .inl ⟨(Option.some.inj found).symm, rfl⟩
    | true =>
      dsimp only [neighbour?] at found
      split at found
      · exact .inl ⟨(Option.some.inj found).symm, rfl⟩
      split at found
      · exact .inr ⟨(Option.some.inj found).symm, rfl⟩
      split at found
      · exact .inl ⟨(Option.some.inj found).symm, rfl⟩
      · exact .inr ⟨(Option.some.inj found).symm, rfl⟩

theorem onGrid?_readsBack {b exact step count : Nat} (found : onGrid? b exact step = some count) :
    readsBack b count = true := by
  rw [onGrid?] at found
  rcases neighbour?_cases found with ⟨rfl, fits⟩ | ⟨rfl, fits⟩
  · exact fits
  · exact fits

theorem onGrid?_pos {b exact step count : Nat} (nonzero : b ≠ 0)
    (found : onGrid? b exact step = some count) : 0 < count := by
  refine Nat.pos_of_ne_zero ?_
  rintro rfl
  have back := onGrid?_readsBack found
  rw [readsBack, nearestMagnitude_zero, decide_eq_true_eq] at back
  exact nonzero back.symm

theorem shortestFrom_pos {b exact : Nat} (nonzero : b ≠ 0) (positive : 0 < exact) (zeros : Nat) :
    0 < shortestFrom b exact zeros := by
  induction zeros with
  | zero => exact positive
  | succ zeros ih =>
    rw [shortestFrom]
    cases found : onGrid? b exact (Nat.pow 10 (zeros + 1)) with
    | none => exact ih
    | some count => exact onGrid?_pos nonzero found

theorem shortest_pos {b : Nat} (nonzero : b ≠ 0) : 0 < shortest b :=
  shortestFrom_pos nonzero (exactDecimal_pos nonzero) _

theorem shortest_zero : shortest 0 = 0 := by
  simp only [shortest, exactDecimal_zero]
  rfl

/-- Stated for a named number of places, so that the scale is never computed. -/
theorem decimalScale_eq {places : Nat} (same : 1074 = places) :
    decimalScale = Nat.pow 10 places := by
  unfold decimalScale
  exact congrArg _ same

/-- The value of the shortest decimal of a finite double. -/
def decimal (x : Binary64) : ℚ :=
  let magnitude := (shortest x.magnitude : ℚ) / (decimalScale : ℚ)
  if x.negative then -magnitude else magnitude

end Binary64

end SqlConsole
