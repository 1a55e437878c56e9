import Mathlib.Data.List.Chain
import SqlConsole.Proofs.Scan.Joining
import SqlConsole.Proofs.Text.LetterCase

/-! Scanning does not tell the cases of letters apart. A text in capitals is cut where the text
itself is cut, and what its lexemes give differs in the case of values alone. Two texts that
differ in case have the same capitals, so their scans differ in no more than that either. -/
namespace SqlConsole

theorem capitals_ofList (text : List Char) :
    capitals (String.ofList text) = String.ofList (text.map capital) := by
  rw [capitals, String.toList_ofList]

/-! ## Bodies and marks -/

namespace Quote

theorem isLetter_char (q : Quote) : isLetter q.char = false := by cases q <;> rfl

theorem commutes_map_capital (q : Quote) : q.Commutes (List.map capital) := by
  have asFlatMap : List.map capital = List.flatMap fun c => [capital c] :=
    funext fun _ => List.map_eq_flatMap
  rw [asFlatMap]
  refine commutes_flatMap ?_ rfl fun c ordinary mark => ?_
  · rw [capital_of_not_letter q.isLetter_char]
  · exact ordinary ((capital_eq_iff q.isLetter_char).mp (List.mem_singleton.mp mark).symm)

end Quote

variable {text : List Char}

theorem noCommentEnd_map_capital : NoCommentEnd (text.map capital) ↔ NoCommentEnd text := by
  have star (c : Char) : capital c = '*' ↔ c = '*' := capital_eq_iff rfl
  have slash (c : Char) : capital c = '/' ↔ c = '/' := capital_eq_iff rfl
  simp only [NoCommentEnd, List.isChain_map, star, slash]

theorem map_capital_digits {digits : List Char} (valid : Digits digits) :
    digits.map capital = digits := by
  refine (List.map_congr_left fun c member => ?_).trans (List.map_id digits)
  rcases capital_cases c with same | ⟨letter, -⟩
  · exact same
  · have digit := valid.2 c member
    rw [isDigit_of_isLetter letter] at digit
    cases digit

theorem Mark.map_capital_text (m : Mark) : m.text.map capital = m.text := by
  rcases m with ⟨_ | _⟩ | ⟨_ | _⟩ | _ <;> rfl

/-- No letter is the second sign of two that belong together. -/
theorem Lexeme.mem_pairs_capital (c e : Char) : (c, capital e) ∈ pairs ↔ (c, e) ∈ pairs := by
  have signs : ∀ pair ∈ pairs, isLetter pair.2 = false := by decide
  rcases capital_cases e with same | ⟨letter, capitalLetter⟩
  · rw [same]
  · constructor
    · intro pair
      have sign : isLetter (capital e) = false := signs _ pair
      rw [sign] at capitalLetter
      cases capitalLetter
    · intro pair
      have sign : isLetter e = false := signs _ pair
      rw [sign] at letter
      cases letter

/-! ## Lexemes in capitals -/

namespace Lexeme

/-- The lexeme of the same text in capitals. -/
def inCapitals : Lexeme → Lexeme
  | lineComment body => lineComment (body.map capital)
  | blockComment body => blockComment (body.map capital)
  | openComment body => openComment (body.map capital)
  | quoted q body => quoted q (body.map capital)
  | openQuote q body => openQuote q (body.map capital)
  | word letters => word (letters.map capital)
  | l => l

variable {l : Lexeme} {behind : List Char}

theorem isLetter_of_isBlank {c : Char} (blank : isBlank c = true) : isLetter c = false := by
  simp only [isBlank, Bool.or_eq_true, decide_eq_true_eq] at blank
  rcases blank with ((rfl | rfl) | rfl) | rfl <;> decide

theorem isLetter_of_not_wordStart {c : Char} (other : isWordStart c = false) :
    isLetter c = false := by
  rw [isWordStart, Bool.or_eq_false_iff] at other
  exact other.1

theorem text_inCapitals (formed : l.WellFormed) : l.inCapitals.text = l.text.map capital := by
  cases l with
  | blank c => simp [inCapitals, text, capital_of_not_letter (isLetter_of_isBlank formed)]
  | lineComment body => simp [inCapitals, text]; rfl
  | blockComment body => simp [inCapitals, text]; decide
  | openComment body => simp [inCapitals, text]; decide
  | quoted q body => simp [inCapitals, text, capital_of_not_letter q.isLetter_char]
  | openQuote q body => simp [inCapitals, text, capital_of_not_letter q.isLetter_char]
  | whole digits => exact (map_capital_digits formed).symm
  | decimal first second =>
    simp [inCapitals, text, map_capital_digits formed.1, map_capital_digits formed.2]
    rfl
  | word letters => rfl
  | mark m => exact m.map_capital_text.symm
  | stray c =>
    obtain ⟨-, -, start, -⟩ := formed
    simp [inCapitals, text, capital_of_not_letter (isLetter_of_not_wordStart start)]

theorem WellFormed.inCapitals (formed : l.WellFormed) : l.inCapitals.WellFormed := by
  cases l with
  | lineComment body =>
    intro newline
    obtain ⟨c, member, same⟩ := List.mem_map.mp newline
    obtain rfl : c = '\n' := (capital_eq_iff rfl).mp same
    exact formed member
  | blockComment body =>
    have inside := noCommentEnd_map_capital.mpr formed
    rwa [List.map_append] at inside
  | openComment body => exact noCommentEnd_map_capital.mpr formed
  | quoted q body =>
    refine ⟨q.commutes_map_capital.noClosingMark formed.1, fun last => ?_⟩
    rw [List.getLast?_map, Option.map_eq_some_iff] at last
    obtain ⟨c, last, same⟩ := last
    obtain rfl : c = '\\' := (capital_eq_iff rfl).mp same
    exact formed.2 last
  | openQuote q body => exact q.commutes_map_capital.noClosingMark formed
  | word letters =>
    obtain ⟨c, more, rfl, start, parts⟩ := formed
    refine ⟨capital c, more.map capital, rfl, by rwa [isWordStart_capital], ?_⟩
    intro d member
    obtain ⟨e, here, rfl⟩ := List.mem_map.mp member
    rw [isWordPart_capital]
    exact parts e here
  | blank | whole | decimal | mark | stray => exact formed

theorem noFurther_capital (c : Char) : NoFurther c (capital c) where
  digit := (isDigit_capital c).trans
  part := (isWordPart_capital c).trans
  sign first := mt (mem_pairs_capital first c).mp
  point := (capital_eq_iff rfl).mp

theorem stopsAsSoon_map_capital (behind : List Char) :
    StopsAsSoon behind (behind.map capital) :=
  stopsAsSoon_of_forall₂ <| List.forall₂_map_right_iff.mpr <|
    List.forall₂_same.mpr fun c _ => noFurther_capital c

theorem stopsAt_inCapitals : l.inCapitals.StopsAt behind ↔ l.StopsAt behind := by
  cases l <;> exact Iff.rfl

theorem StopsAt.inCapitals (stops : l.StopsAt behind) :
    l.inCapitals.StopsAt (behind.map capital) := by
  rw [stopsAt_inCapitals]
  cases l with
  | lineComment body =>
    cases behind with
    | nil => exact stops
    | cons c behind =>
      -- only a newline stops the comment, and it has no other case
      obtain rfl : c = '\n' := stops c rfl
      rintro d ⟨⟩
      rfl
  | _ => exact stops.of_stopsAsSoon (stopsAsSoon_map_capital behind) nofun

end Lexeme

theorem flatMap_text_inCapitals {ls : List Lexeme} (formed : ∀ l ∈ ls, l.WellFormed) :
    (ls.map Lexeme.inCapitals).flatMap Lexeme.text = (ls.flatMap Lexeme.text).map capital := by
  rw [List.flatMap_map, List.map_flatMap]
  exact List.flatMap_congr fun l member => Lexeme.text_inCapitals (formed l member)

theorem Parted.inCapitals {ls : List Lexeme} (parted : Parted ls) :
    Parted (ls.map Lexeme.inCapitals) := by
  induction ls with
  | nil => trivial
  | cons l ls ih =>
    obtain ⟨formed, stops, later⟩ := parted
    refine ⟨formed.inCapitals, ?_, ih later⟩
    rw [flatMap_text_inCapitals later.wellFormed]
    exact stops.inCapitals

theorem lexemes_map_capital (text : List Char) :
    lexemes (text.map capital) = (lexemes text).map Lexeme.inCapitals := by
  have parted := parted_lexemes text
  have texts := flatMap_text_inCapitals parted.wellFormed
  rw [flatMap_text_lexemes] at texts
  rw [← texts, parted.inCapitals.lexemes_flatMap_text]

/-! ## What is found -/

def Token.inCapitals (t : Token) : Token := { t with value := capitals t.value }

theorem Position.after_map_capital (p : Position) (text : List Char) :
    p.after (text.map capital) = p.after text :=
  p.after_map (fun _ => capital_eq_iff rfl) text

theorem wordKind_capitals (word : String) : wordKind (capitals word) = wordKind word := by
  rw [wordKind, wordKind, Keyword.ofWord?, Keyword.ofWord?, capitals_capitals]

namespace Lexeme

variable {l : Lexeme}

theorem token?_inCapitals (formed : l.WellFormed) (p : Position) :
    Placed.token? ⟨p, l.inCapitals⟩ = (Placed.token? ⟨p, l⟩).map Token.inCapitals := by
  cases l with
  | quoted q body =>
    simp [Placed.token?, inCapitals, Token.inCapitals, capitals_ofList,
      q.commutes_map_capital.unescape formed.1]
  | whole digits =>
    simp [Placed.token?, inCapitals, Token.inCapitals, capitals_ofList, map_capital_digits formed]
  | decimal first second =>
    have same := text_inCapitals formed
    simp only [inCapitals] at same
    simp [Placed.token?, inCapitals, Token.inCapitals, capitals_ofList, ← same]
  | word letters =>
    simp [Placed.token?, inCapitals, Token.inCapitals, ← capitals_ofList, wordKind_capitals]
  | mark m =>
    simp [Placed.token?, inCapitals, Token.inCapitals, capitals_ofList, m.map_capital_text]
  | blank | lineComment | blockComment | openComment | openQuote | stray => rfl

theorem fault?_inCapitals (l : Lexeme) (p : Position) :
    Placed.fault? ⟨p, l.inCapitals⟩ = Placed.fault? ⟨p, l⟩ := by
  cases l <;> rfl

end Lexeme

theorem filterMap_place_inCapitals {α : Type} {found found' : Placed → Option α}
    {ls : List Lexeme} (formed : ∀ l ∈ ls, l.WellFormed)
    (here : ∀ l ∈ ls, ∀ p, found ⟨p, l.inCapitals⟩ = found' ⟨p, l⟩) (p : Position) :
    (place p (ls.map Lexeme.inCapitals)).filterMap found = (place p ls).filterMap found' := by
  rw [List.map_eq_flatMap]
  refine filterMap_place_flatMap (fun l member p => ?_) (fun l member p => ?_) p
  · rw [List.flatMap_singleton, Lexeme.text_inCapitals (formed l member), p.after_map_capital]
  · rw [place, place, List.filterMap_cons, ← here l member p]
    cases found ⟨p, l.inCapitals⟩ <;> rfl

/-- A text in capitals gives the same faults, and the same tokens with their values in capitals. -/
theorem scan_inCapitals (source : String) :
    (scan (capitals source)).tokens = (scan source).tokens.map Token.inCapitals ∧
    (scan (capitals source)).faults = (scan source).faults := by
  have formed := (parted_lexemes source.toList).wellFormed
  simp only [scan, placedLexemes, capitals, String.toList_ofList, lexemes_map_capital,
    Position.after_map_capital, List.map_append, List.map_filterMap]
  constructor
  · congr 1
    exact filterMap_place_inCapitals formed
      (fun l member => Lexeme.token?_inCapitals (formed l member)) _
  · exact filterMap_place_inCapitals formed (fun l _ => l.fault?_inCapitals) _

/-- The tokens are alike in everything but the case of letters in their values. -/
structure Token.SameUpToCase (t u : Token) : Prop where
  kind : t.kind = u.kind
  position : t.position = u.position
  number : t.number = u.number
  value : List.Forall₂ SameLetter t.value.toList u.value.toList

theorem Token.sameUpToCase_of_inCapitals {t u : Token} (same : t.inCapitals = u.inCapitals) :
    t.SameUpToCase u := by
  obtain ⟨kind, value, position, number⟩ := Token.mk.inj same
  refine ⟨kind, position, number, forall₂_sameLetter_iff.mpr ?_⟩
  exact String.ofList_injective value

/-- Two texts that agree character by character up to the case of letters give the same faults, and
as many tokens, each pair of them alike up to the case of letters in their values. -/
theorem scan_ignores_case {source other : String}
    (same : List.Forall₂ SameLetter source.toList other.toList) :
    (scan source).faults = (scan other).faults ∧
    List.Forall₂ Token.SameUpToCase (scan source).tokens (scan other).tokens := by
  have inCapitals : capitals source = capitals other := by
    rw [capitals, capitals, forall₂_sameLetter_iff.mp same]
  obtain ⟨tokens, faults⟩ := scan_inCapitals source
  obtain ⟨tokens', faults'⟩ := scan_inCapitals other
  constructor
  · rw [← faults, ← faults', inCapitals]
  · have equal : (scan source).tokens.map Token.inCapitals =
        (scan other).tokens.map Token.inCapitals := by
      rw [← tokens, ← tokens', inCapitals]
    rw [← List.forall₂_eq_eq_eq, List.forall₂_map_left_iff, List.forall₂_map_right_iff] at equal
    exact equal.imp fun _ _ => Token.sameUpToCase_of_inCapitals

/-- Keywords, a string with an escaped mark, a comment and a letter that has no other case here. -/
theorem scan_ignores_case_mixed :
    let source := "sElect 'a\\'É' -- Q\n1.5eX é"
    let other := "SELECT 'A\\'É' -- q\n1.5Ex é"
    List.Forall₂ SameLetter source.toList other.toList ∧
    (scan source).faults = [⟨.unexpectedCharacter 'é', ⟨2, 7, 25⟩⟩] ∧
    (scan source).faults = (scan other).faults ∧
    List.Forall₂ Token.SameUpToCase (scan source).tokens (scan other).tokens := by
  intro source other
  have same : List.Forall₂ SameLetter source.toList other.toList :=
    forall₂_sameLetter_iff.mpr (by decide +kernel)
  exact ⟨same, by decide +kernel, scan_ignores_case same⟩

end SqlConsole
