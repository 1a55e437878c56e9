import SqlConsole.Proofs.Binary64.Nearest
import SqlConsole.Proofs.Binary64.Shortest

/-! Shortest decimals read back. A finite double without a sign is the nearest one to its own exact
decimal, so the search for a shorter one always ends with a decimal that has it as the nearest. -/
namespace SqlConsole

namespace Binary64

theorem magnitude_nearest (num den : Nat) :
    (nearest num den).magnitude = nearestMagnitude num den ∧ (nearest num den).negative = false :=
  magnitude_toUInt64 (Nat.min_le_right _ _)

/-- Decimal units are finer than binary ones, so every finite double is a whole number of them. -/
theorem exactDecimal_div (b : Nat) : (exactDecimal b : ℚ) / decimalScale = size b := by
  -- the number of places is named, so that no scale is ever computed
  obtain ⟨places, same⟩ : ∃ places : Nat, 1074 = places := ⟨1074, rfl⟩
  have exactly : exactDecimal b = units b * Nat.pow 5 places := by
    have power : Nat.pow 5 1074 = Nat.pow 5 places := congrArg _ same
    rw [exactDecimal, power]
  have ten : (10 : ℚ) ^ places = 2 ^ places * 5 ^ places := by
    rw [← mul_pow]
    norm_num
  have five : (5 : ℚ) ^ places ≠ 0 := pow_ne_zero _ (by norm_num)
  rw [exactly, decimalScale_eq same, size, unitScale_eq same, Nat.pow_eq, Nat.pow_eq]
  push_cast
  rw [ten, mul_div_mul_right _ _ five]

theorem decimalScale_pos : 0 < decimalScale := by
  obtain ⟨places, same⟩ : ∃ places : Nat, 1074 = places := ⟨1074, rfl⟩
  rw [decimalScale_eq same]
  exact natPow_pos (by decide) places

theorem readsBack_exactDecimal {b : Nat} (finite : b < infinityBits) :
    readsBack b (exactDecimal b) = true := by
  obtain ⟨same, positive⟩ := magnitude_toUInt64 finite.le
  have bounded : (Binary64.mk b.toUInt64).isFinite = true := by simpa [isFinite, same] using finite
  have itself := IsNearest.of_value positive bounded
  have found := isNearest_nearest (exactDecimal b) decimalScale_pos
  rw [value_eq positive, same] at itself
  rw [exactDecimal_div] at found
  have magnitude := (magnitude_nearest (exactDecimal b) decimalScale).1
  rw [found.unique itself, same] at magnitude
  exact decide_eq_true magnitude.symm

theorem readsBack_shortestFrom {b : Nat} (finite : b < infinityBits) (zeros : Nat) :
    readsBack b (shortestFrom b (exactDecimal b) zeros) = true := by
  induction zeros with
  | zero => exact readsBack_exactDecimal finite
  | succ zeros ih =>
    rw [shortestFrom]
    cases found : onGrid? b (exactDecimal b) (Nat.pow 10 (zeros + 1)) with
    | none => exact ih
    | some count => exact onGrid?_readsBack found

/-- Whoever reads the shortest decimal of a double and rounds it correctly has the double. -/
theorem isNearest_decimal {x : Binary64} (positive : x.negative = false)
    (finite : x.isFinite = true) : IsNearest x.decimal x := by
  have bounded : x.magnitude < infinityBits := of_decide_eq_true finite
  have back : nearestMagnitude (shortest x.magnitude) decimalScale = x.magnitude :=
    of_decide_eq_true (readsBack_shortestFrom bounded _)
  have found := isNearest_nearest (shortest x.magnitude) decimalScale_pos
  obtain ⟨magnitude, sign⟩ := magnitude_nearest (shortest x.magnitude) decimalScale
  rw [eq_of_magnitude sign positive (magnitude.trans back)] at found
  have unsigned : x.decimal = (shortest x.magnitude : ℚ) / (decimalScale : ℚ) :=
    if_neg (by simp [positive])
  rwa [unsigned]

end Binary64

end SqlConsole
