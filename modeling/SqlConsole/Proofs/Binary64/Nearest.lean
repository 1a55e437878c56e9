import SqlConsole.Proofs.Binary64.Rounding

/-! Correct rounding. `IsNearest` says which double is the nearest to a quotient without computing
it, and there is only one; rounding finds it. -/
namespace SqlConsole

namespace Binary64

/-- The value of a finite magnitude. -/
def size (b : Nat) : ℚ := (units b : ℚ) / (unitScale : ℚ)

/-- The value of a finite double. -/
def value (x : Binary64) : ℚ := if x.negative then -size x.magnitude else size x.magnitude

/-- `x` is the double nearest to `q`, which is not negative: infinite from halfway between the
largest finite double and the power of two behind it, else nearer than every other finite double, or
as near and with the even significand. -/
structure IsNearest (q : ℚ) (x : Binary64) : Prop where
  positive : x.negative = false
  number : x.magnitude ≤ infinityBits
  infinite_iff : x.magnitude = infinityBits ↔ 2 ^ 1024 - 2 ^ 970 ≤ q
  closest : x.isFinite = true → ∀ y : Binary64, y.isFinite = true → |q - x.value| ≤ |q - y.value|
  even : x.isFinite = true → ∀ y : Binary64, y.isFinite = true → y.value ≠ x.value →
    |q - y.value| = |q - x.value| → significand x.magnitude % 2 = 0

/-- Stated for a named exponent, so that the scale is never computed. -/
theorem unitScale_eq {places : Nat} (same : 1074 = places) : (unitScale : ℚ) = 2 ^ places := by
  have scale : unitScale = Nat.pow 2 places := by
    unfold unitScale
    exact congrArg _ same
  rw [scale, Nat.pow_eq, Nat.cast_pow, Nat.cast_ofNat]

theorem unitScale_pos : (0 : ℚ) < unitScale := by
  obtain ⟨places, same⟩ : ∃ places : Nat, 1074 = places := ⟨1074, rfl⟩
  rw [unitScale_eq same]
  positivity

theorem size_zero : size 0 = 0 := by
  have none : units 0 = 0 := Nat.zero_mul _
  rw [size, none, Nat.cast_zero, zero_div]

theorem strictMono_size : StrictMono size := by
  intro a b less
  have units := strictMono_units less
  exact div_lt_div_of_pos_right (by exact_mod_cast units) unitScale_pos

theorem size_nonneg (b : Nat) : 0 ≤ size b :=
  div_nonneg (Nat.cast_nonneg _) unitScale_pos.le

theorem value_eq {x : Binary64} (positive : x.negative = false) : x.value = size x.magnitude := by
  simp [value, positive]

theorem abs_value (x : Binary64) : |x.value| = size x.magnitude := by
  unfold value
  split
  · rw [abs_neg, abs_of_nonneg (size_nonneg _)]
  · exact abs_of_nonneg (size_nonneg _)

theorem toNat_bits {x : Binary64} (positive : x.negative = false) : x.bits.toNat = x.magnitude := by
  simp only [negative, Nat.pow_eq, decide_eq_false_iff_not, not_le] at positive
  rw [magnitude, Nat.pow_eq, Nat.mod_eq_of_lt positive]

theorem eq_of_magnitude {x y : Binary64} (left : x.negative = false) (right : y.negative = false)
    (same : x.magnitude = y.magnitude) : x = y := by
  obtain ⟨bits⟩ := x
  obtain ⟨bits'⟩ := y
  congr 1
  apply UInt64.toNat_inj.mp
  rw [← toNat_bits left, ← toNat_bits right] at same
  exact same

theorem magnitude_toUInt64 {m : Nat} (bound : m ≤ infinityBits) :
    (Binary64.mk m.toUInt64).magnitude = m ∧ (Binary64.mk m.toUInt64).negative = false := by
  have top : infinityBits < 2 ^ 63 := by decide
  have bits : m.toUInt64.toNat = m := Nat.mod_eq_of_lt (by omega)
  simp only [magnitude, negative, bits, Nat.pow_eq]
  constructor
  · exact Nat.mod_eq_of_lt (by omega)
  · simp; omega

/-- Every magnitude below infinity is that of some finite double. -/
theorem exists_finite {m : Nat} (finite : m < infinityBits) :
    ∃ x : Binary64, x.isFinite = true ∧ x.value = size m := by
  obtain ⟨same, positive⟩ := magnitude_toUInt64 finite.le
  refine ⟨⟨m.toUInt64⟩, ?_, ?_⟩
  · simpa [isFinite, same] using finite
  · rw [value_eq positive, same]

namespace IsNearest

variable {q : ℚ} {x y : Binary64}

theorem finite_iff (nearest : IsNearest q x) : x.isFinite = true ↔ q < 2 ^ 1024 - 2 ^ 970 := by
  have number := nearest.number
  have infinite := nearest.infinite_iff
  rw [← not_le, ← infinite]
  simp only [isFinite, decide_eq_true_eq]
  omega

/-- Between two even magnitudes there is another one, which is nearer to the middle. -/
theorem not_lt (left : IsNearest q x) (right : IsNearest q y) (finite : x.isFinite = true)
    (finite' : y.isFinite = true) : ¬ x.magnitude < y.magnitude := by
  intro less
  have valueLeft := value_eq left.positive
  have valueRight := value_eq right.positive
  have apart : size x.magnitude < size y.magnitude := strictMono_size less
  have near := left.closest finite y finite'
  have near' := right.closest finite' x finite
  have tied : |q - x.value| = |q - y.value| := le_antisymm near near'
  have other : x.value ≠ y.value := by
    rw [valueLeft, valueRight]
    exact apart.ne
  have evenLeft := left.even finite y finite' other.symm tied.symm
  have evenRight := right.even finite' x finite other tied
  rw [significand_mod_two] at evenLeft evenRight
  have top : y.magnitude < infinityBits := by simpa [isFinite] using finite'
  obtain ⟨z, finiteBetween, valueBetween⟩ :=
    exists_finite (by omega : x.magnitude + 1 < infinityBits)
  have above : size x.magnitude < z.value := by
    rw [valueBetween]
    exact strictMono_size (Nat.lt_succ_self _)
  have below : z.value < size y.magnitude := by
    rw [valueBetween]
    exact strictMono_size (by omega)
  rw [valueLeft, valueRight] at tied
  have middle : q - size x.magnitude = size y.magnitude - q := by
    rcases abs_eq_abs.mp tied with same | opposite
    · linarith
    · rw [opposite, neg_sub]
  have nearer : |q - z.value| < q - size x.magnitude := abs_lt.mpr ⟨by linarith, by linarith⟩
  have best := left.closest finite z finiteBetween
  rw [valueLeft] at best
  exact absurd (best.trans_lt nearer) (le_abs_self _).not_gt

theorem unique (left : IsNearest q x) (right : IsNearest q y) : x = y := by
  apply eq_of_magnitude left.positive right.positive
  have finite : x.isFinite = y.isFinite := by
    rw [Bool.eq_iff_iff, left.finite_iff, right.finite_iff]
  cases bounded : x.isFinite with
  | true =>
    have bounded' := finite.symm.trans bounded
    have notLess := left.not_lt right bounded bounded'
    have notMore := right.not_lt left bounded' bounded
    omega
  | false =>
    have bounded' := finite.symm.trans bounded
    simp only [isFinite, decide_eq_false_iff_not] at bounded bounded'
    have := left.number
    have := right.number
    omega

end IsNearest

/-- Halfway between the largest finite double and the power of two behind it, in units. -/
theorem overflow_units :
    (2 : ℚ) ^ 53 * 2 ^ 2045 - 2 ^ 2045 / 2 = (2 ^ 1024 - 2 ^ 970) * unitScale := by
  obtain ⟨places, same⟩ : ∃ places : Nat, 1074 = places := ⟨1074, rfl⟩
  have top : 53 + 2045 = 1024 + places := by omega
  have half : 2045 = 970 + places + 1 := by omega
  rw [unitScale_eq same, ← pow_add, top, half, pow_succ, mul_div_cancel_right₀ _ two_ne_zero,
    pow_add, pow_add, sub_mul]

namespace Rounded

variable {q : ℚ} {k r : Nat} (rounded : Rounded (q * unitScale) k r)

include rounded

theorem infinite_iff : infinityBits ≤ k * 2 ^ 52 + r ↔ 2 ^ 1024 - 2 ^ 970 ≤ q := by
  rw [← strictMono_units.le_iff_le, rounded.units_eq, units_infinityBits, rounded.reaches_iff,
    overflow_units]
  exact mul_le_mul_iff_left₀ unitScale_pos

theorem closest_size (b : Nat) :
    |q - size (k * 2 ^ 52 + r)| ≤ |q - size b| ∧
      (size b ≠ size (k * 2 ^ 52 + r) → |q - size b| = |q - size (k * 2 ^ 52 + r)| →
        r % 2 = 0) := by
  have distance (n : Nat) : |q - size n| = |q * unitScale - units n| / unitScale := by
    rw [← abs_of_pos unitScale_pos, ← abs_div, abs_of_pos unitScale_pos, sub_div,
      mul_div_cancel_right₀ _ unitScale_pos.ne', size]
  have whole : (units (k * 2 ^ 52 + r) : ℚ) = r * 2 ^ k := by exact_mod_cast rounded.units_eq
  obtain ⟨nearer, even⟩ := rounded.closest_units b
  rw [distance, distance, whole]
  refine ⟨div_le_div_of_nonneg_right nearer unitScale_pos.le, fun other tied => even ?_ ?_⟩
  · intro same
    exact other (by rw [size, size, same, rounded.units_eq])
  · exact (div_left_inj' unitScale_pos.ne').mp tied

/-- The double whose magnitude has the shift `k` and the significand `r`, or infinity. -/
theorem isNearest (nonneg : 0 ≤ q) :
    IsNearest q ⟨(min (k * 2 ^ 52 + r) infinityBits).toUInt64⟩ := by
  obtain ⟨magnitude, positive⟩ :=
    magnitude_toUInt64 (Nat.min_le_right (k * 2 ^ 52 + r) infinityBits)
  generalize Binary64.mk (min (k * 2 ^ 52 + r) infinityBits).toUInt64 = x at magnitude positive
  have finite (bounded : x.isFinite = true) : x.magnitude = k * 2 ^ 52 + r := by
    simp only [isFinite, decide_eq_true_eq] at bounded
    omega
  have shorter (y : Binary64) : |q - size y.magnitude| ≤ |q - y.value| := by
    have apart := abs_abs_sub_abs_le_abs_sub q y.value
    rwa [abs_of_nonneg nonneg, abs_value] at apart
  refine ⟨positive, by omega, ?_, fun bounded y _ => ?_, fun bounded y _ other tied => ?_⟩
  · rw [← rounded.infinite_iff]
    omega
  · rw [value_eq positive, finite bounded]
    exact (rounded.closest_size y.magnitude).1.trans (shorter y)
  · obtain ⟨nearer, even⟩ := rounded.closest_size y.magnitude
    rw [value_eq positive, finite bounded] at other tied
    have same := le_antisymm (tied ▸ shorter y) nearer
    rw [significand_mod_two, finite bounded]
    have parity := even ?_ same
    · omega
    -- only zero is as near to a double as to its negative
    intro mirrored
    have negated : y.value = -size (k * 2 ^ 52 + r) := by
      have sizes := abs_value y
      rw [mirrored] at sizes
      exact (eq_or_eq_neg_of_abs_eq sizes).resolve_left other
    have least := (rounded.closest_size 0).1
    rw [size_zero, sub_zero, abs_of_nonneg nonneg] at least
    have size := size_nonneg (k * 2 ^ 52 + r)
    rw [negated, sub_neg_eq_add, abs_of_nonneg (add_nonneg nonneg size)] at tied
    apply other
    rw [negated]
    linarith

end Rounded

theorem isNearest_nearest (num : Nat) {den : Nat} (positive : 0 < den) :
    IsNearest (num / den) (nearest num den) := by
  have rounded := @rounded_roundHalfEven (num * unitScale) den positive
  have amount : ((num * unitScale : ℕ) : ℚ) / den = num / den * unitScale := by
    rw [Nat.cast_mul, mul_div_right_comm]
  rw [amount] at rounded
  have nonneg : (0 : ℚ) ≤ num / den := div_nonneg (Nat.cast_nonneg _) (Nat.cast_nonneg _)
  exact rounded.isNearest nonneg

/-- A finite double is the nearest to its own value. -/
theorem IsNearest.of_value {x : Binary64} (positive : x.negative = false)
    (finite : x.isFinite = true) : IsNearest x.value x := by
  have rounded := rounded_units x.magnitude
  have amount : (units x.magnitude : ℚ) = x.value * unitScale := by
    rw [value_eq positive, size, div_mul_cancel₀ _ unitScale_pos.ne']
  rw [amount] at rounded
  have nearest := rounded.isNearest (by rw [value_eq positive]; exact size_nonneg _)
  have bound : x.magnitude ≤ infinityBits := by
    simp only [isFinite, decide_eq_true_eq] at finite
    omega
  rw [shift_significand, Nat.min_eq_left bound] at nearest
  obtain ⟨same, sign⟩ := magnitude_toUInt64 bound
  rwa [eq_of_magnitude sign positive same] at nearest

end Binary64

end SqlConsole
