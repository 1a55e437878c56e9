import Mathlib.Algebra.Order.Field.Basic
import Mathlib.Data.List.DropRight
import Mathlib.Tactic.FieldSimp
import Mathlib.Tactic.Ring
import SqlConsole.Json.Numeral
import SqlConsole.Proofs.Binary64.Shortest
import SqlConsole.Proofs.Json.Reader
import SqlConsole.Proofs.Text.Digits
import SqlConsole.Proofs.Text.Runs

/-! Numerals are read as the values for which they were written: a natural number as itself, a
double as its shortest decimal. Every layout of a decimal has the same value. -/
namespace SqlConsole

namespace Json

namespace Reader

/-! ## Parts of a numeral -/

structure IsDigits (digits : List Char) : Prop where
  nonempty : digits ≠ []
  each : ∀ c ∈ digits, isDigit c = true

theorem IsDigits.append {first second : List Char} (run : IsDigits first)
    (more : ∀ c ∈ second, isDigit c = true) : IsDigits (first ++ second) where
  nonempty := List.append_ne_nil_of_left_ne_nil run.nonempty second
  each c member := (List.mem_append.mp member).elim (run.each c) (more c)

theorem isDigits_toDigits (n : Nat) : IsDigits (Nat.toDigits 10 n) :=
  ⟨Nat.toDigits_ne_nil, isDigit_of_mem_toDigits⟩

theorem isDigit_zeros {count : Nat} : ∀ c ∈ List.replicate count '0', isDigit c = true := by
  intro c member
  rw [List.eq_of_mem_replicate member]
  rfl

theorem isDigits_zero : IsDigits ['0'] := ⟨List.cons_ne_nil _ _, @isDigit_zeros 1⟩

variable {digits whole fraction rest : List Char} {power : ℤ}

theorem digits?_append (run : IsDigits digits) (stop : ∀ c ∈ rest.head?, isDigit c = false) :
    digits? (digits ++ rest) = some (digits, rest) := by
  obtain ⟨taken, left⟩ := takeWhile_of_stop run.each stop
  obtain ⟨first, more, rfl⟩ := List.exists_cons_of_ne_nil run.nonempty
  rw [digits?, taken, left]

theorem whole?_append (run : IsDigits whole) (front : whole.head? = some '0' → whole = ['0'])
    (stop : ∀ c ∈ rest.head?, isDigit c = false) :
    whole? (whole ++ rest) = some (whole, rest) := by
  have allowed : ¬ (whole.head? = some '0' ∧ whole ≠ ['0']) := fun ⟨zero, more⟩ => more (front zero)
  simp [whole?, digits?_append run stop, allowed]

theorem fraction?_point (run : IsDigits fraction) (stop : ∀ c ∈ rest.head?, isDigit c = false) :
    fraction? ('.' :: (fraction ++ rest)) = some (fraction, rest) :=
  digits?_append run stop

theorem fraction?_none (noPoint : ∀ c ∈ rest.head?, c ≠ '.') :
    fraction? rest = some ([], rest) := by
  unfold fraction?
  split
  next => exact absurd rfl (noPoint '.' rfl)
  next => rfl

theorem power?_none (noPower : ∀ c ∈ rest.head?, c ≠ 'e' ∧ c ≠ 'E') :
    power? rest = some (0, rest) := by
  cases rest with
  | nil => rfl
  | cons c rest =>
    obtain ⟨small, large⟩ := noPower c rfl
    simp [power?, small, large]

/-- A power of ten always shows its sign. -/
def powerText (power : ℤ) : List Char :=
  'e' :: (if power < 0 then '-' else '+') :: Nat.toDigits 10 power.natAbs

theorem power?_powerText (power : ℤ) (stop : ∀ c ∈ rest.head?, isDigit c = false) :
    power? (powerText power ++ rest) = some (power, rest) := by
  have read := digits?_append (isDigits_toDigits power.natAbs) stop
  by_cases negative : power < 0
  · simp [powerText, power?, negative, read, decimalValue_toDigits, abs_of_neg negative]
  · simp [powerText, power?, negative, read, decimalValue_toDigits,
      abs_of_nonneg (Int.not_lt.mp negative)]

theorem unsigned?_of_parts {text behind last : List Char}
    (readWhole : whole? text = some (whole, behind))
    (readFraction : fraction? behind = some (fraction, last))
    (readPower : power? last = some (power, rest)) :
    unsigned? text =
      some ((decimalValue (whole ++ fraction) : ℚ) * 10 ^ (power - fraction.length), rest) := by
  simp [unsigned?, readWhole, readFraction, readPower]

/-! ## Whole numerals -/

/-- What follows a numeral could not belong to it. -/
def EndsNumeral (rest : List Char) : Prop :=
  ∀ c ∈ rest.head?, isDigit c = false ∧ c ≠ '.' ∧ c ≠ 'e' ∧ c ≠ 'E'

namespace EndsNumeral

variable (ends : EndsNumeral rest)

include ends

theorem noDigit : ∀ c ∈ rest.head?, isDigit c = false := fun c first => (ends c first).1

theorem noPoint : ∀ c ∈ rest.head?, c ≠ '.' := fun c first => (ends c first).2.1

theorem power?_eq : power? rest = some (0, rest) :=
  power?_none fun c first => (ends c first).2.2

end EndsNumeral

theorem unsigned?_toDigits (n : Nat) (ends : EndsNumeral rest) :
    unsigned? (Nat.toDigits 10 n ++ rest) = some ((n : ℚ), rest) := by
  have front : (Nat.toDigits 10 n).head? = some '0' → Nat.toDigits 10 n = ['0'] := by
    intro zero
    cases n with
    | zero => rfl
    | succ n => exact absurd zero (head?_toDigits (Nat.succ_pos n))
  rw [unsigned?_of_parts (whole?_append (isDigits_toDigits n) front ends.noDigit)
    (fraction?_none ends.noPoint) ends.power?_eq]
  simp [decimalValue_toDigits]

theorem unsigned?_point (runWhole : IsDigits whole)
    (front : whole.head? = some '0' → whole = ['0']) (runFraction : IsDigits fraction)
    (ends : EndsNumeral rest) :
    unsigned? (whole ++ '.' :: (fraction ++ rest)) =
      some ((decimalValue (whole ++ fraction) : ℚ) * 10 ^ (-(fraction.length : ℤ)), rest) := by
  have stop : ∀ c ∈ ('.' :: (fraction ++ rest)).head?, isDigit c = false := by
    rintro c ⟨⟩
    rfl
  rw [unsigned?_of_parts (whole?_append runWhole front stop)
    (fraction?_point runFraction ends.noDigit) ends.power?_eq, Int.zero_sub]

/-! ## Layouts -/

/-- Digits that do not begin with a zero. -/
structure Significant (digits : List Char) : Prop extends IsDigits digits where
  front : digits.head? ≠ some '0'

namespace Significant

variable (significant : Significant digits)

include significant

theorem append {more : List Char} (each : ∀ c ∈ more, isDigit c = true) :
    Significant (digits ++ more) where
  toIsDigits := significant.toIsDigits.append each
  front := by
    rw [List.head?_append_of_ne_nil _ significant.nonempty]
    exact significant.front

theorem take {count : Nat} (some : 0 < count) : Significant (digits.take count) := by
  obtain ⟨first, more, rfl⟩ := List.exists_cons_of_ne_nil significant.nonempty
  obtain ⟨count, rfl⟩ := Nat.exists_eq_add_of_lt some
  refine ⟨⟨by simp, fun c member => significant.each c (List.mem_of_mem_take member)⟩, ?_⟩
  simpa using significant.front

theorem drop {count : Nat} (more : count < digits.length) : IsDigits (digits.drop count) where
  nonempty := by simpa using more
  each c member := significant.each c (List.mem_of_mem_drop member)

theorem unsigned?_positional {before : Nat} (some : 0 < before) (ends : EndsNumeral rest) :
    unsigned? (Numeral.positional digits before ++ rest) =
      .some ((decimalValue digits : ℚ) * 10 ^ ((before : ℤ) - digits.length), rest) := by
  unfold Numeral.positional
  split
  next few =>
    have whole : Significant (digits ++ List.replicate (before - digits.length) '0') :=
      significant.append isDigit_zeros
    have read := unsigned?_point whole.toIsDigits (absurd · whole.front) isDigits_zero ends
    have value : decimalValue (digits ++ List.replicate (before - digits.length) '0' ++ ['0']) =
        decimalValue digits * 10 ^ (before - digits.length + 1) := by
      rw [List.append_assoc, ← List.replicate_succ', decimalValue_append, decimalValue_zeros,
        List.length_replicate, Nat.add_zero]
    have places : (before : ℤ) - digits.length =
        ((before - digits.length + 1 : ℕ) : ℤ) + -(['0'].length : ℤ) := by
      rw [List.length_singleton]
      omega
    rw [List.append_assoc _ ['.', '0'] rest]
    refine read.trans ?_
    rw [value, places, zpow_add₀ (by norm_num), zpow_natCast, Nat.cast_mul, Nat.cast_pow,
      mul_assoc, Nat.cast_ofNat]
  next many =>
    have last := significant.drop (Nat.lt_of_not_le many)
    have first := significant.take some
    have read := unsigned?_point first.toIsDigits (absurd · first.front) last ends
    have places : (before : ℤ) - digits.length = -((digits.drop before).length : ℤ) := by
      rw [List.length_drop]
      omega
    rw [List.append_assoc, List.cons_append, read, List.take_append_drop, places]

theorem unsigned?_behindPoint (zeros : Nat) (ends : EndsNumeral rest) :
    unsigned? (Numeral.behindPoint digits zeros ++ rest) =
      some ((decimalValue digits : ℚ) * 10 ^ (-((zeros + digits.length : ℕ) : ℤ)), rest) := by
  have fraction : IsDigits (List.replicate zeros '0' ++ digits) :=
    ⟨List.append_ne_nil_of_right_ne_nil _ significant.nonempty, fun c member =>
      (List.mem_append.mp member).elim (isDigit_zeros c) (significant.each c)⟩
  have value : decimalValue (['0'] ++ (List.replicate zeros '0' ++ digits)) =
      decimalValue digits := by
    rw [← List.append_assoc, decimalValue_append, ← List.replicate_one, ← List.replicate_add,
      decimalValue_zeros, Nat.zero_mul, Nat.zero_add]
  have read := unsigned?_point isDigits_zero (fun _ => rfl) fraction ends
  rw [value, List.length_append, List.length_replicate] at read
  exact read

theorem fraction?_behindFirst (noDigit : ∀ c ∈ rest.head?, isDigit c = false)
    (noPoint : ∀ c ∈ rest.head?, c ≠ '.') :
    fraction? ((if digits.length ≤ 1 then [] else '.' :: digits.drop 1) ++ rest) =
      some (digits.drop 1, rest) := by
  split
  next few =>
    rw [List.drop_eq_nil_of_le few]
    exact fraction?_none noPoint
  next many => exact fraction?_point (significant.drop (Nat.lt_of_not_le many)) noDigit

theorem unsigned?_scientific (power : ℤ) (ends : EndsNumeral rest) :
    unsigned? (Numeral.scientific digits power ++ rest) =
      some ((decimalValue digits : ℚ) * 10 ^ (power + 1 - digits.length), rest) := by
  let behind :=
    (if digits.length ≤ 1 then [] else '.' :: digits.drop 1) ++ (powerText power ++ rest)
  have stop : ∀ c ∈ behind.head?, isDigit c = false := by
    unfold behind
    split
    all_goals
      rintro c ⟨⟩
      rfl
  have first := significant.take Nat.one_pos
  have readWhole := whole?_append first.toIsDigits (absurd · first.front) stop
  have readFraction : fraction? behind = some (digits.drop 1, powerText power ++ rest) := by
    refine significant.fraction?_behindFirst ?_ ?_
    all_goals
      rintro c ⟨⟩
      decide
  have readPower := power?_powerText power ends.noDigit
  have places : power + 1 - digits.length = power - ((digits.drop 1).length : ℤ) := by
    have := List.length_pos_of_ne_nil significant.nonempty
    rw [List.length_drop]
    omega
  have text : Numeral.scientific digits power ++ rest = digits.take 1 ++ behind := by
    simp only [Numeral.scientific, behind, powerText, List.append_assoc]
  rw [text, unsigned?_of_parts readWhole readFraction readPower, List.take_append_drop, places]

/-- The layout does not change the value. -/
theorem unsigned?_layout (power : ℤ) (ends : EndsNumeral rest) :
    unsigned? (Numeral.layout digits power ++ rest) =
      some ((decimalValue digits : ℚ) * 10 ^ (power + 1 - digits.length), rest) := by
  unfold Numeral.layout
  split
  next near =>
    have before : ((power.toNat + 1 : ℕ) : ℤ) = power + 1 := by omega
    rw [significant.unsigned?_positional (Nat.succ_pos _) ends, before]
  split
  next far =>
    have places : -(((-power).toNat - 1 + digits.length : ℕ) : ℤ) = power + 1 - digits.length := by
      omega
    rw [significant.unsigned?_behindPoint _ ends, places]
  next => exact significant.unsigned?_scientific power ends

end Significant

theorem significant_toDigits {n : Nat} (positive : 0 < n) : Significant (Nat.toDigits 10 n) :=
  ⟨isDigits_toDigits n, head?_toDigits positive⟩

/-! ## Zeros at the end -/

theorem trimZeros_append_zeros (digits : List Char) :
    ∃ count, digits = Numeral.trimZeros digits ++ List.replicate count '0' := by
  have parts := @List.takeWhile_append_dropWhile _ (· = '0') digits.reverse
  have zeros := List.eq_replicate_of_mem fun c (member : c ∈ digits.reverse.takeWhile (· = '0')) =>
    of_decide_eq_true (@List.mem_takeWhile_imp _ (· = '0') _ _ member)
  refine ⟨(digits.reverse.takeWhile (· = '0')).length, ?_⟩
  rw [Numeral.trimZeros, ← List.reverse_replicate, ← zeros, ← List.reverse_append, parts,
    List.reverse_reverse]

theorem Significant.trimZeros (significant : Significant digits) :
    Significant (Numeral.trimZeros digits) := by
  obtain ⟨count, whole⟩ := trimZeros_append_zeros digits
  have nonempty : Numeral.trimZeros digits ≠ [] := by
    intro none
    have front := significant.front
    rw [whole, none, List.nil_append] at front
    cases count with
    | zero => exact significant.nonempty (by rw [whole, none]; rfl)
    | succ count => exact front rfl
  refine ⟨⟨nonempty, fun c member => significant.each c ?_⟩, ?_⟩
  · rw [whole]
    exact List.mem_append_left _ member
  · have front := significant.front
    rwa [whole, List.head?_append_of_ne_nil _ nonempty] at front

/-- Zeros at the end only shift the point. -/
theorem decimalValue_trimZeros (digits : List Char) (places : Nat) :
    (decimalValue (Numeral.trimZeros digits) : ℚ) *
        10 ^ ((digits.length : ℤ) - places - (Numeral.trimZeros digits).length) =
      decimalValue digits / (Nat.pow 10 places : ℕ) := by
  obtain ⟨count, whole⟩ := trimZeros_append_zeros digits
  have length := congrArg List.length whole
  rw [List.length_append, List.length_replicate] at length
  have power : (digits.length : ℤ) - places - (Numeral.trimZeros digits).length =
      count - places := by omega
  have value : decimalValue digits = decimalValue (Numeral.trimZeros digits) * 10 ^ count := by
    conv_lhs => rw [whole]
    rw [decimalValue_append, decimalValue_zeros, List.length_replicate, Nat.add_zero]
  rw [power, value, zpow_sub₀ (by norm_num), zpow_natCast, zpow_natCast, Nat.pow_eq]
  push_cast
  exact mul_div_assoc' _ _ _

/-! ## Numbers as they are written -/

theorem Significant.unsigned?_trimmed (significant : Significant digits) {places scale : Nat}
    (power : scale = Nat.pow 10 places) (ends : EndsNumeral rest) :
    unsigned? (Numeral.layout (Numeral.trimZeros digits) (digits.length - (places + 1)) ++ rest) =
      some ((decimalValue digits : ℚ) / (scale : ℚ), rest) := by
  have places : (digits.length : ℤ) - (places + 1) + 1 = digits.length - places := by omega
  rw [significant.trimZeros.unsigned?_layout _ ends, places, decimalValue_trimZeros, power]

theorem unsigned?_ofMagnitude (b : Nat) (ends : EndsNumeral rest) :
    unsigned? (Numeral.ofMagnitude b ++ rest) =
      some ((Binary64.shortest b : ℚ) / (Binary64.decimalScale : ℚ), rest) := by
  unfold Numeral.ofMagnitude
  split
  next zero =>
    have nothing : decimalValue (['0'] ++ ['0']) = 0 := rfl
    refine (unsigned?_point isDigits_zero (fun _ => rfl) isDigits_zero ends).trans ?_
    rw [zero, Binary64.shortest_zero, nothing, Nat.cast_zero, zero_mul, zero_div]
  next nonzero =>
    have significant := significant_toDigits (Binary64.shortest_pos nonzero)
    -- the number of places is named, so that the scale is never computed
    obtain ⟨places, same⟩ : ∃ places : Nat, 1074 = places := ⟨1074, rfl⟩
    have read := significant.unsigned?_trimmed (Binary64.decimalScale_eq same) ends
    have point : (1075 : ℤ) = places + 1 := by omega
    rw [decimalValue_toDigits, ← point] at read
    exact read

/-- A numeral without a sign. -/
theorem number?_of_unsigned? {text : List Char} {result : ℚ × List Char}
    (read : unsigned? text = some result) : number? text = some result := by
  unfold number?
  split
  next => cases read
  next => exact read

theorem number?_toDigits (n : Nat) (ends : EndsNumeral rest) :
    number? (Nat.toDigits 10 n ++ rest) = some ((n : ℚ), rest) :=
  number?_of_unsigned? (unsigned?_toDigits n ends)

theorem number?_ofBinary64 (x : Binary64) (ends : EndsNumeral rest) :
    number? (Numeral.ofBinary64 x ++ rest) = some (x.decimal, rest) := by
  have read := unsigned?_ofMagnitude x.magnitude ends
  unfold Numeral.ofBinary64 Binary64.decimal
  split
  next => rw [List.cons_append, number?, read, Option.map_some]
  next => exact number?_of_unsigned? read

end Reader

end Json

end SqlConsole
