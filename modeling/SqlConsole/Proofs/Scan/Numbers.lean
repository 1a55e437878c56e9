import SqlConsole.Proofs.Binary64.Nearest
import SqlConsole.Proofs.Lexeme.Stopping
import SqlConsole.Proofs.Text.Digits

/-! The numbers that tokens carry. A numeral has an exact value of its own, and the token of a
numeral carries the double nearest to it, however long the numeral is. -/
namespace SqlConsole

/-- Digits, and behind a point more digits or nothing. -/
def IsNumeral (text : List Char) : Prop :=
  Digits text ∨ ∃ first second, Digits first ∧ Digits second ∧ text = first ++ '.' :: second

/-- The exact value of a numeral. What stands behind the point counts as a fraction. -/
def numeralValue (text : List Char) : ℚ :=
  let whole := text.takeWhile (· ≠ '.')
  let fraction := (text.dropWhile (· ≠ '.')).tail
  decimalValue whole + decimalValue fraction / 10 ^ fraction.length

theorem point_notMem {digits : List Char} (valid : Digits digits) :
    ∀ c ∈ digits, decide (c ≠ '.') = true := by
  intro c member
  apply decide_eq_true
  rintro rfl
  exact absurd (valid.2 '.' member) (by decide)

theorem numeralValue_whole {digits : List Char} (valid : Digits digits) :
    numeralValue digits = decimalValue digits := by
  have whole := List.takeWhile_eq_self_iff.mpr (point_notMem valid)
  have nothing := List.dropWhile_eq_nil_iff.mpr (point_notMem valid)
  have none : decimalValue [] = 0 := rfl
  rw [numeralValue, whole, nothing, List.tail_nil, none, Nat.cast_zero, zero_div, add_zero]

theorem numeralValue_decimal {first : List Char} (valid : Digits first) (second : List Char) :
    numeralValue (first ++ '.' :: second) =
      decimalValue (first ++ second) / 10 ^ second.length := by
  obtain ⟨whole, point⟩ := takeWhile_of_stop (point_notMem valid)
    (by rintro c ⟨⟩; rfl : ∀ c ∈ ('.' :: second).head?, decide (c ≠ '.') = false)
  have scale : (10 : ℚ) ^ second.length ≠ 0 := pow_ne_zero _ (by norm_num)
  rw [numeralValue, whole, point, List.tail_cons, decimalValue_append, add_div' _ _ _ scale]
  push_cast
  rfl

theorem Binary64.isNearest_ofNumeral (whole fraction : List Char) :
    IsNearest (decimalValue (whole ++ fraction) / 10 ^ fraction.length)
      (ofNumeral whole fraction) := by
  have positive : 0 < Nat.pow 10 fraction.length := Nat.pow_pos (by decide)
  have nearest := isNearest_nearest (decimalValue (whole ++ fraction)) positive
  rw [Nat.pow_eq, Nat.cast_pow, Nat.cast_ofNat] at nearest
  exact nearest

/-- A token has a number if and only if it is a numeral, and then the one nearest to its value. -/
def Token.CarriesNearest (t : Token) : Prop :=
  (t.number.isSome = true ↔ t.kind = .number) ∧
    ∀ x, t.number = some x →
      IsNumeral t.value.toList ∧ Binary64.IsNearest (numeralValue t.value.toList) x

theorem Token.carriesNearest_of_none {t : Token} (kind : t.kind ≠ .number)
    (none : t.number = none) : t.CarriesNearest := by
  simp [CarriesNearest, kind, none]

theorem Lexeme.WellFormed.carriesNearest {l : Lexeme} {p : Position} {t : Token}
    (formed : l.WellFormed) (found : Placed.token? ⟨p, l⟩ = some t) : t.CarriesNearest := by
  cases l with
  | whole digits =>
    cases found
    refine ⟨by simp, ?_⟩
    rintro x ⟨⟩
    have nearest := Binary64.isNearest_ofNumeral digits []
    rw [List.append_nil, List.length_nil, pow_zero, div_one, ← numeralValue_whole formed] at nearest
    rw [String.toList_ofList]
    exact ⟨.inl formed, nearest⟩
  | decimal first second =>
    cases found
    refine ⟨by simp, ?_⟩
    rintro x ⟨⟩
    have nearest := Binary64.isNearest_ofNumeral first second
    rw [← numeralValue_decimal formed.1] at nearest
    rw [String.toList_ofList]
    exact ⟨.inr ⟨first, second, formed.1, formed.2, rfl⟩, nearest⟩
  | quoted q body =>
    cases found
    apply Token.carriesNearest_of_none <;> simp
  | word letters =>
    cases found
    apply Token.carriesNearest_of_none
    · rcases wordKind_cases (String.ofList letters) with ⟨k, -, kind⟩ | ⟨-, kind⟩ <;> simp [kind]
    · rfl
  | mark m =>
    cases found
    apply Token.carriesNearest_of_none
    · cases m <;> simp [Mark.kind]
    · rfl
  | blank | lineComment | blockComment | openComment | openQuote | stray => cases found

theorem scan_carriesNearest {source : String} {t : Token} (member : t ∈ (scan source).tokens) :
    t.CarriesNearest := by
  rcases scan_token_cases member with ⟨p, l, formed, found⟩ | rfl
  · exact formed.carriesNearest found
  · exact Token.carriesNearest_of_none nofun rfl

/-- Every numeral of a text is carried by its token as the nearest double, subnormal ones, zero and
infinity included, and no other token carries a number. Every numeral can be read. -/
theorem scan_numbers (source : String) :
    (∀ t ∈ (scan source).tokens,
      (t.number.isSome = true ↔ t.kind = .number) ∧
      ∀ x, t.number = some x →
        IsNumeral t.value.toList ∧ Binary64.IsNearest (numeralValue t.value.toList) x) ∧
    ∀ f ∈ (scan source).faults, ∀ text, f.cause ≠ .invalidNumber text := by
  constructor
  · intro t member
    exact scan_carriesNearest member
  · intro f member text
    obtain ⟨p, l, -, found⟩ := scan_fault_cases member
    cases l with
    | stray c =>
      cases found
      dsimp only
      split <;> simp
    | openComment body => cases found; simp
    | openQuote q body => cases found; simp
    | _ => cases found

/-- One more than the greatest power of two up to which every whole number is a double stands
halfway between two doubles; the one with the even significand is taken. -/
theorem scan_numbers_halfway :
    ⟨.number, "9007199254740993", .start, some ⟨0x4340000000000000⟩⟩ ∈
        (scan "9007199254740993").tokens ∧
      Binary64.IsNearest 9007199254740993 ⟨0x4340000000000000⟩ := by
  have member : ⟨.number, "9007199254740993", .start, some ⟨0x4340000000000000⟩⟩ ∈
      (scan "9007199254740993").tokens := by decide +kernel
  have exactly : numeralValue "9007199254740993".toList = 9007199254740993 := by decide +kernel
  obtain ⟨-, nearest⟩ := ((scan_numbers "9007199254740993").1 _ member).2 _ rfl
  rw [exactly] at nearest
  exact ⟨member, nearest⟩

end SqlConsole
