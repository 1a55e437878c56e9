import Mathlib.Algebra.Field.Rat
import Mathlib.Data.List.Basic
import SqlConsole.Text.Letter

/-! Runs of decimal digits and the natural numbers they denote. -/
namespace SqlConsole

theorem decimalValue_append (first second : List Char) :
    decimalValue (first ++ second) =
      decimalValue first * 10 ^ second.length + decimalValue second := by
  have split := @Nat.ofDigitChars_append 10 first second 0
  have shift := @Nat.ofDigitChars_eq_ofDigitChars_zero second (Nat.ofDigitChars 10 first 0)
  rw [shift, Nat.mul_comm] at split
  exact split

theorem decimalValue_zeros (count : Nat) : decimalValue (List.replicate count '0') = 0 :=
  @Nat.ofDigitChars_replicate_zero 10 0 count

theorem decimalValue_toDigits (n : Nat) : decimalValue (Nat.toDigits 10 n) = n :=
  Nat.ofDigitChars_ten_toDigits

theorem toDigits_injective {m n : Nat} (same : Nat.toDigits 10 m = Nat.toDigits 10 n) : m = n := by
  have values := congrArg decimalValue same
  rwa [decimalValue_toDigits, decimalValue_toDigits] at values

theorem isDigit_of_mem_toDigits {n : Nat} : ∀ c ∈ Nat.toDigits 10 n, isDigit c = true := by
  intro c member
  have digit := Nat.isDigit_of_mem_toDigits (by decide) (by decide) member
  simpa [Char.isDigit, isDigit, Char.le_def] using digit

theorem notMem_toDigits {c : Char} (other : isDigit c = false) (n : Nat) :
    c ∉ Nat.toDigits 10 n := by
  intro mem
  simp [isDigit_of_mem_toDigits c mem] at other

/-- Only zero begins with a zero. -/
theorem head?_toDigits {n : Nat} (positive : 0 < n) : (Nat.toDigits 10 n).head? ≠ some '0' := by
  induction n using Nat.strongRecOn with
  | _ n ih =>
    by_cases small : n < 10
    · rw [Nat.toDigits_of_lt_base small]
      have nonzero : ∀ d < 10, 0 < d → d.digitChar ≠ '0' := by decide
      simpa using nonzero n small positive
    · have nonempty : Nat.toDigits 10 (n / 10) ≠ [] := Nat.toDigits_ne_nil
      rw [Nat.toDigits_of_base_le (by decide) (by omega), List.head?_append_of_ne_nil _ nonempty]
      exact ih (n / 10) (by omega) (by omega)

end SqlConsole
