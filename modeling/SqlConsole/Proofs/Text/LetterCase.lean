import Mathlib.Data.List.Forall2
import SqlConsole.Text.Letter
import SqlConsole.Text.Space

/-! The case of letters. Capitals replace the letters `a` to `z` and nothing else, so no other
character comes from a letter or becomes one, and no class of characters tells cases apart. -/
namespace SqlConsole

/-- The same character up to the case of the letters `a` to `z`. -/
def SameLetter (c d : Char) : Prop := capital c = capital d

instance (c d : Char) : Decidable (SameLetter c d) := inferInstanceAs (Decidable (_ = _))

theorem forall₂_sameLetter_iff {text other : List Char} :
    List.Forall₂ SameLetter text other ↔ text.map capital = other.map capital := by
  rw [← List.forall₂_eq_eq_eq, List.forall₂_map_left_iff, List.forall₂_map_right_iff]
  rfl

theorem toNat_capital {c : Char} (small : 'a' ≤ c ∧ c ≤ 'z') :
    (capital c).toNat = c.toNat - 32 := by
  have first : 97 ≤ c.toNat := small.1
  have last : c.toNat ≤ 122 := small.2
  have valid : (c.toNat - 32).isValidChar := by
    left
    omega
  rw [capital, if_pos (by simpa using small), Char.ofNat, dif_pos valid]
  rfl

theorem capital_of_not_small {c : Char} (other : ¬ ('a' ≤ c ∧ c ≤ 'z')) : capital c = c := by
  simp [capital, other]

/-- A character is its own capital, or it and its capital are letters. -/
theorem capital_cases (c : Char) :
    capital c = c ∨ isLetter c = true ∧ isLetter (capital c) = true := by
  by_cases small : 'a' ≤ c ∧ c ≤ 'z'
  · have value := toNat_capital small
    have first : 97 ≤ c.toNat := small.1
    have last : c.toNat ≤ 122 := small.2
    have capitalFirst : 'A' ≤ capital c := show 65 ≤ (capital c).toNat by omega
    have capitalLast : capital c ≤ 'Z' := show (capital c).toNat ≤ 90 by omega
    right
    simp [isLetter, small, capitalFirst, capitalLast]
  · exact .inl (capital_of_not_small small)

theorem capital_capital (c : Char) : capital (capital c) = capital c := by
  by_cases small : 'a' ≤ c ∧ c ≤ 'z'
  · refine capital_of_not_small fun again => ?_
    have value := toNat_capital small
    have last : c.toNat ≤ 122 := small.2
    have first : 97 ≤ (capital c).toNat := again.1
    omega
  · rw [capital_of_not_small small, capital_of_not_small small]

theorem map_capital_capital (text : List Char) :
    (text.map capital).map capital = text.map capital := by
  rw [List.map_map]
  exact List.map_congr_left fun c _ => capital_capital c

theorem capitals_capitals (s : String) : capitals (capitals s) = capitals s := by
  rw [capitals, capitals, String.toList_ofList, map_capital_capital]

theorem capital_of_not_letter {c : Char} (other : isLetter c = false) : capital c = c := by
  rcases capital_cases c with same | ⟨letter, -⟩
  · exact same
  · rw [other] at letter
    cases letter

/-- Only the character itself has a capital that is no letter. -/
theorem capital_eq_iff {c d : Char} (other : isLetter d = false) : capital c = d ↔ c = d := by
  constructor
  · rintro rfl
    rcases capital_cases c with same | ⟨-, letter⟩
    · exact same.symm
    · rw [other] at letter
      cases letter
  · rintro rfl
    exact capital_of_not_letter other

theorem small_cases (c : Char) : small c = c ∨ isLetter c = true := by
  by_cases large : 'A' ≤ c ∧ c ≤ 'Z'
  · right
    simp [isLetter, large]
  · left
    simp [small, large]

theorem toNat_of_isLetter {c : Char} (letter : isLetter c = true) :
    65 ≤ c.toNat ∧ c.toNat ≤ 122 := by
  simp only [isLetter, Bool.or_eq_true, Bool.and_eq_true, decide_eq_true_eq] at letter
  rcases letter with ⟨first, last⟩ | ⟨first, last⟩
  · exact ⟨Nat.le_trans (by decide : 65 ≤ 97) first, last⟩
  · exact ⟨first, Nat.le_trans last (by decide : 90 ≤ 122)⟩

theorem isSpace_of_isLetter {c : Char} (letter : isLetter c = true) : isSpace c = false := by
  have range := toNat_of_isLetter letter
  simp only [isSpace, Bool.or_eq_false_iff, Bool.and_eq_false_iff, decide_eq_false_iff_not]
  omega

theorem isDigit_of_isLetter {c : Char} (letter : isLetter c = true) : isDigit c = false := by
  have range := toNat_of_isLetter letter
  have beyond : ¬ c ≤ '9' := fun last => by
    have : c.toNat ≤ 57 := last
    omega
  simp [isDigit, beyond]

theorem isDigit_capital (c : Char) : isDigit (capital c) = isDigit c := by
  rcases capital_cases c with same | ⟨letter, capitalLetter⟩
  · rw [same]
  · rw [isDigit_of_isLetter letter, isDigit_of_isLetter capitalLetter]

theorem isWordStart_capital (c : Char) : isWordStart (capital c) = isWordStart c := by
  rcases capital_cases c with same | ⟨letter, capitalLetter⟩
  · rw [same]
  · simp [isWordStart, letter, capitalLetter]

theorem isWordPart_capital (c : Char) : isWordPart (capital c) = isWordPart c := by
  rcases capital_cases c with same | ⟨letter, capitalLetter⟩
  · rw [same]
  · simp [isWordPart, letter, capitalLetter]

end SqlConsole
