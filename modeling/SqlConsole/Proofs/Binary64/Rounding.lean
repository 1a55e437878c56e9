import Mathlib.Algebra.Order.Field.Basic
import Mathlib.Algebra.Order.Field.Rat
import Mathlib.Order.Monotone.Basic
import Mathlib.Tactic.Linarith
import Mathlib.Tactic.Ring
import SqlConsole.Binary64.Nearest

/-! Rounding once. A quotient of whole units is rounded to a multiple of a power of two that keeps
fifty-three bits of it, and no finite double is nearer to it than that multiple. -/
namespace SqlConsole

namespace Binary64

/-! ## Units -/

theorem significand_lt (b : Nat) : significand b < 2 ^ 53 := by
  have fraction : b % 2 ^ 52 < 2 ^ 52 := Nat.mod_lt _ (by decide)
  unfold significand
  simp only [Nat.pow_eq]
  split <;> omega

/-- A magnitude is its shift in the exponent bits and its significand, whose leading one carries
into them. -/
theorem shift_significand (b : Nat) : shift b * 2 ^ 52 + significand b = b := by
  have parts := Nat.div_add_mod b (2 ^ 52)
  unfold shift significand
  simp only [Nat.pow_eq]
  split <;> omega

/-- Also for a significand that was rounded up to the next power of two. -/
theorem units_pack {k r : Nat} (fits : r ≤ 2 ^ 53) (normal : k = 0 ∨ 2 ^ 52 ≤ r) :
    units (k * 2 ^ 52 + r) = r * 2 ^ k := by
  unfold units significand shift
  simp only [Nat.pow_eq]
  by_cases full : r = 2 ^ 53
  · have place : (k * 2 ^ 52 + r) / 2 ^ 52 - 1 = k + 1 := by omega
    have rest : (k * 2 ^ 52 + r) % 2 ^ 52 = 0 := by omega
    rw [if_neg (by omega), place, rest, full, Nat.pow_succ']
    omega
  by_cases small : r < 2 ^ 52
  · have low : k = 0 := by omega
    subst low
    have place : (0 * 2 ^ 52 + r) / 2 ^ 52 - 1 = 0 := by omega
    rw [if_pos (by omega), place, Nat.zero_mul, Nat.zero_add]
  · have place : (k * 2 ^ 52 + r) / 2 ^ 52 - 1 = k := by omega
    have rest : 2 ^ 52 + (k * 2 ^ 52 + r) % 2 ^ 52 = r := by omega
    rw [if_neg (by omega), place, rest]

/-- Only the smallest magnitudes have no leading one. -/
theorem leading_significand (b : Nat) : shift b = 0 ∨ 2 ^ 52 ≤ significand b := by
  unfold shift significand
  simp only [Nat.pow_eq]
  split <;> omega

theorem units_lt (b : Nat) : units b < 2 ^ 53 * 2 ^ shift b :=
  Nat.mul_lt_mul_of_pos_right (significand_lt b) (Nat.two_pow_pos _)

theorem units_succ (b : Nat) : units (b + 1) = units b + 2 ^ shift b := by
  have bound := significand_lt b
  have normal := (leading_significand b).imp_right Nat.le_succ_of_le
  have next := units_pack (by omega : significand b + 1 ≤ 2 ^ 53) normal
  rw [← Nat.add_assoc, shift_significand] at next
  rw [next, Nat.succ_mul]
  rfl

theorem strictMono_units : StrictMono units := by
  apply strictMono_nat_of_lt_succ
  intro b
  rw [units_succ]
  exact Nat.lt_add_of_pos_right (Nat.two_pow_pos _)

theorem significand_mod_two (b : Nat) : significand b % 2 = b % 2 := by
  have parts := shift_significand b
  omega

theorem units_infinityBits : units infinityBits = 2 ^ 53 * 2 ^ 2045 := by
  have bits : infinityBits = 2045 * 2 ^ 52 + 2 ^ 53 := by decide
  rw [bits]
  exact units_pack (Nat.le_refl _) (.inr (by decide))

/-! ## Rounding to multiples of a power of two -/

/-- The multiple `r * 2 ^ k` comes nearest to `amount`, and `amount` fills fifty-three bits of such
multiples or is less than that with `k` zero. -/
structure Rounded (amount : ℚ) (k r : Nat) : Prop where
  near : |amount - r * 2 ^ k| ≤ 2 ^ k / 2
  tie : |amount - r * 2 ^ k| = 2 ^ k / 2 → r % 2 = 0
  below : amount < 2 ^ 53 * 2 ^ k
  above : k = 0 ∨ 2 ^ 52 * 2 ^ k ≤ amount

/-- A quotient and the whole number next to it, on one side or the other. -/
theorem roundHalfEven_cases (num den : Nat) :
    (roundHalfEven num den = num / den ∧ 2 * (num % den) ≤ den ∧
      (2 * (num % den) = den → num / den % 2 = 0)) ∨
    (roundHalfEven num den = num / den + 1 ∧ den ≤ 2 * (num % den) ∧
      (2 * (num % den) = den → (num / den + 1) % 2 = 0)) := by
  unfold roundHalfEven
  dsimp only
  split
  · left; omega
  split
  · right; omega
  · rcases Nat.mod_two_eq_zero_or_one (num / den) with even | odd
    · left; omega
    · right; omega

theorem abs_sub_roundHalfEven {num den : Nat} (positive : 0 < den) :
    |(num : ℚ) / den - roundHalfEven num den| ≤ 1 / 2 ∧
      (|(num : ℚ) / den - roundHalfEven num den| = 1 / 2 → roundHalfEven num den % 2 = 0) := by
  have size : (0 : ℚ) < den := Nat.cast_pos.mpr positive
  have parts : (num : ℚ) / den = (num / den : ℕ) + ((num % den : ℕ) : ℚ) / den := by
    rw [div_eq_iff size.ne', add_mul, div_mul_cancel₀ _ size.ne', mul_comm]
    exact_mod_cast (Nat.div_add_mod num den).symm
  have less : num % den < den := Nat.mod_lt num positive
  rcases roundHalfEven_cases num den with ⟨down, half, even⟩ | ⟨up, half, even⟩
  · have distance : (num : ℚ) / den - roundHalfEven num den = ((num % den : ℕ) : ℚ) / den := by
      rw [down, parts, add_sub_cancel_left]
    have bound : ((num % den : ℕ) : ℚ) / den ≤ 1 / 2 := by
      rw [div_le_div_iff₀ size two_pos, one_mul, mul_comm]
      exact_mod_cast half
    rw [distance, abs_of_nonneg (by positivity)]
    refine ⟨bound, fun same => ?_⟩
    rw [div_eq_div_iff size.ne' two_ne_zero, one_mul, mul_comm] at same
    rw [down]
    exact even (by exact_mod_cast same)
  · have distance : (num : ℚ) / den - roundHalfEven num den =
        -((1 : ℚ) - ((num % den : ℕ) : ℚ) / den) := by
      rw [up, parts]
      push_cast
      ring
    have bound : 1 / 2 ≤ ((num % den : ℕ) : ℚ) / den := by
      rw [div_le_div_iff₀ two_pos size, one_mul, mul_comm _ (2 : ℚ)]
      exact_mod_cast half
    have most : ((num % den : ℕ) : ℚ) / den ≤ 1 := by
      rw [div_le_one size]
      exact_mod_cast less.le
    rw [distance, abs_neg, abs_of_nonneg (by linarith)]
    refine ⟨by linarith, fun same => ?_⟩
    have middle : ((num % den : ℕ) : ℚ) / den = 1 / 2 := by linarith
    rw [div_eq_div_iff size.ne' two_ne_zero, one_mul, mul_comm] at middle
    rw [up]
    exact even (by exact_mod_cast middle)

theorem dropped_bounds (n : Nat) :
    n < 2 ^ 53 * 2 ^ dropped n ∧ (dropped n = 0 ∨ 2 ^ 52 * 2 ^ dropped n ≤ n) := by
  unfold dropped
  rw [← Nat.pow_add, ← Nat.pow_add]
  constructor
  · have fits : 2 ^ (n.log2 + 1) ≤ 2 ^ (53 + (n.log2 - 52)) :=
      Nat.pow_le_pow_right two_pos (by omega)
    exact Nat.lt_of_lt_of_le Nat.lt_log2_self fits
  · by_cases few : n.log2 ≤ 52
    · left; omega
    · right
      have nonzero : n ≠ 0 := by rintro rfl; simp at few
      have whole : 52 + (n.log2 - 52) = n.log2 := by omega
      rw [whole]
      exact Nat.log2_self_le nonzero

theorem rounded_roundHalfEven {num den : Nat} (positive : 0 < den) :
    let k := dropped (num / den)
    Rounded (num / den) k (roundHalfEven num (den * Nat.pow 2 k)) := by
  intro k
  obtain ⟨below, above⟩ := dropped_bounds (num / den)
  have size : (0 : ℚ) < den := Nat.cast_pos.mpr positive
  have step : (0 : ℚ) < 2 ^ k := by positivity
  obtain ⟨near, tie⟩ :=
    @abs_sub_roundHalfEven num _ (Nat.mul_pos positive (Nat.two_pow_pos k))
  have distance : |(num : ℚ) / den - roundHalfEven num (den * Nat.pow 2 k) * 2 ^ k| =
      |(num : ℚ) / (den * 2 ^ k : ℕ) - roundHalfEven num (den * 2 ^ k)| * 2 ^ k := by
    rw [← abs_of_pos step, ← abs_mul, abs_of_pos step, sub_mul, Nat.cast_mul, Nat.cast_pow,
      Nat.cast_ofNat, ← div_div, div_mul_cancel₀ _ step.ne', Nat.pow_eq]
  refine ⟨?_, ?_, ?_, ?_⟩
  · rw [distance]
    calc _ ≤ 1 / 2 * (2 : ℚ) ^ k := mul_le_mul_of_nonneg_right near step.le
      _ = 2 ^ k / 2 := by ring
  · intro half
    have middle : (2 : ℚ) ^ k / 2 = 1 / 2 * 2 ^ k := by ring
    rw [distance, middle] at half
    exact tie (mul_right_cancel₀ step.ne' half)
  · rw [div_lt_iff₀ size]
    exact_mod_cast (Nat.div_lt_iff_lt_mul positive).mp below
  · apply above.imp_right
    intro fills
    rw [le_div_iff₀ size]
    exact_mod_cast (Nat.le_div_iff_mul_le positive).mp fills

namespace Rounded

variable {amount : ℚ} {k r : Nat} (rounded : Rounded amount k r)

include rounded

theorem fits : r ≤ 2 ^ 53 := by
  have step : (0 : ℚ) < 2 ^ k := by positivity
  have reached := (abs_le.mp rounded.near).1
  have below := rounded.below
  by_contra beyond
  have more : (2 : ℚ) ^ 53 + 1 ≤ r := by exact_mod_cast Nat.lt_of_not_le beyond
  have product := mul_le_mul_of_nonneg_right more step.le
  linarith

theorem normal : k = 0 ∨ 2 ^ 52 ≤ r := by
  apply rounded.above.imp_right
  intro fills
  have step : (0 : ℚ) < 2 ^ k := by positivity
  have reached := (abs_le.mp rounded.near).2
  by_contra short
  have less : (r : ℚ) + 1 ≤ 2 ^ 52 := by exact_mod_cast Nat.lt_of_not_le short
  have product := mul_le_mul_of_nonneg_right less step.le
  linarith

/-- Also when the multiple fills one bit more than fifty-three. -/
theorem units_eq : units (k * 2 ^ 52 + r) = r * 2 ^ k := units_pack rounded.fits rounded.normal

/-- No other multiple is nearer, and if another one is as near then `r` is even. -/
theorem closest (n : Nat) :
    |amount - r * 2 ^ k| ≤ |amount - n * 2 ^ k| ∧
      (n ≠ r → |amount - n * 2 ^ k| = |amount - r * 2 ^ k| → r % 2 = 0) := by
  by_cases same : n = r
  · rw [same]
    exact ⟨le_refl _, fun other => absurd rfl other⟩
  have step : (0 : ℚ) < 2 ^ k := by positivity
  -- the two multiples are at least one step apart
  have apart : (2 : ℚ) ^ k ≤ |(n : ℚ) * 2 ^ k - r * 2 ^ k| := by
    have whole : (1 : ℤ) ≤ |(n : ℤ) - r| := Int.one_le_abs (by omega)
    have one : (1 : ℚ) ≤ |(n : ℚ) - r| := by exact_mod_cast whole
    rw [← sub_mul, abs_mul, abs_of_pos step]
    linarith [mul_le_mul_of_nonneg_right one step.le]
  have triangle := abs_sub_le ((n : ℚ) * 2 ^ k) amount (r * 2 ^ k)
  rw [abs_sub_comm _ amount] at triangle
  have near := rounded.near
  refine ⟨by linarith, fun _ tied => rounded.tie ?_⟩
  linarith

theorem closest_units (b : Nat) :
    |amount - r * 2 ^ k| ≤ |amount - units b| ∧
      (units b ≠ r * 2 ^ k → |amount - units b| = |amount - r * 2 ^ k| → r % 2 = 0) := by
  by_cases grid : k ≤ shift b
  · -- the magnitude is itself a multiple
    have multiple : units b = significand b * 2 ^ (shift b - k) * 2 ^ k := by
      rw [Nat.mul_assoc, ← Nat.pow_add, Nat.sub_add_cancel grid]
      rfl
    obtain ⟨nearer, even⟩ := rounded.closest (significand b * 2 ^ (shift b - k))
    rw [multiple]
    push_cast at nearer even ⊢
    refine ⟨nearer, fun other => even ?_⟩
    rintro same
    exact other (by rw [same])
  · -- the magnitude is smaller than the least multiple that fills all bits
    have nonzero : k ≠ 0 := by omega
    have fills := rounded.above.resolve_left nonzero
    have small : units b < 2 ^ 52 * 2 ^ k := by
      calc units b < 2 ^ 53 * 2 ^ shift b := units_lt b
        _ = 2 ^ 52 * 2 ^ (shift b + 1) := by ring
        _ ≤ 2 ^ 52 * 2 ^ k :=
            Nat.mul_le_mul_left _ (Nat.pow_le_pow_right two_pos (by omega))
    have less : (units b : ℚ) < 2 ^ 52 * 2 ^ k := by exact_mod_cast small
    have nearer := (rounded.closest (2 ^ 52)).1
    rw [Nat.cast_pow, Nat.cast_ofNat, abs_of_nonneg (sub_nonneg.mpr fills)] at nearer
    have far : |amount - units b| = amount - units b := abs_of_pos (by linarith)
    refine ⟨by linarith, fun _ tied => ?_⟩
    linarith

/-- Half a step below a full power of two is rounded up to it, since the multiple below is odd. -/
theorem reaches_iff (e : Nat) :
    2 ^ 53 * 2 ^ e ≤ r * 2 ^ k ↔ (2 : ℚ) ^ 53 * 2 ^ e - 2 ^ e / 2 ≤ amount := by
  have step : (0 : ℚ) < 2 ^ k := by positivity
  have full : (0 : ℚ) < 2 ^ e := by positivity
  obtain ⟨left, right⟩ := abs_le.mp rounded.near
  rcases Nat.lt_trichotomy k e with finer | rfl | coarser
  · have half : (2 : ℚ) ^ k ≤ 2 ^ e / 2 := by
      rw [le_div_iff₀ two_pos, ← pow_succ]
      exact pow_le_pow_right₀ one_le_two finer
    have below := rounded.below
    refine ⟨fun reached => ?_, fun reached => ?_⟩
    · have most : (r : ℚ) ≤ 2 ^ 53 := by exact_mod_cast rounded.fits
      have reached : (2 : ℚ) ^ 53 * 2 ^ e ≤ r * 2 ^ k := by exact_mod_cast reached
      linarith [mul_le_mul_of_nonneg_right most step.le]
    · linarith
  · refine ⟨fun reached => ?_, fun reached => ?_⟩
    · have reached : (2 : ℚ) ^ 53 * 2 ^ k ≤ r * 2 ^ k := by exact_mod_cast reached
      linarith
    · apply Nat.mul_le_mul_right
      by_contra short
      have less : (r : ℚ) + 1 ≤ 2 ^ 53 := by exact_mod_cast Nat.lt_of_not_le short
      have product := mul_le_mul_of_nonneg_right less step.le
      have halfway : amount - r * 2 ^ k = 2 ^ k / 2 := by linarith
      have even := rounded.tie (by rw [halfway, abs_of_pos (half_pos step)])
      -- then `r` is the multiple just below, which is odd
      have last : (2 : ℚ) ^ 53 * 2 ^ k = (r + 1 : ℕ) * 2 ^ k := by push_cast; linarith
      have odd : 2 ^ 53 = r + 1 := by exact_mod_cast mul_right_cancel₀ step.ne' last
      omega
  · have twice : (2 : ℚ) ^ e * 2 ≤ 2 ^ k := by
      rw [← pow_succ]
      exact pow_le_pow_right₀ one_le_two coarser
    have fills := rounded.above.resolve_left (by omega)
    have least := rounded.normal.resolve_left (by omega)
    refine ⟨fun _ => by linarith, fun _ => ?_⟩
    have most : (2 : ℚ) ^ 52 ≤ r := by exact_mod_cast least
    have reached : (2 : ℚ) ^ 53 * 2 ^ e ≤ r * 2 ^ k := by
      linarith [mul_le_mul_of_nonneg_right most step.le]
    exact_mod_cast reached

end Rounded

/-- A double is its own multiple. -/
theorem rounded_units (b : Nat) : Rounded (units b) (shift b) (significand b) := by
  have step : (0 : ℚ) < 2 ^ shift b := by positivity
  have distance : |(units b : ℚ) - significand b * 2 ^ shift b| = 0 := by simp [units]
  refine ⟨?_, ?_, ?_, ?_⟩
  · rw [distance]
    exact (half_pos step).le
  · intro half
    rw [distance] at half
    exact absurd half (half_pos step).ne
  · exact_mod_cast units_lt b
  · apply (leading_significand b).imp_right
    intro leading
    exact_mod_cast Nat.mul_le_mul_right (2 ^ shift b) leading

end Binary64

end SqlConsole
