import SqlConsole.Proofs.Lexeme.Stopping

/-! Words in a scan. Every word gives a token, and its capitals alone decide whether that is a
keyword or an identifier. Nothing else gives a keyword. -/
namespace SqlConsole

/-- Letters, digits and underscores, and no digit in front. -/
def IsWord (text : List Char) : Prop :=
  ∃ c more, text = c :: more ∧ isWordStart c = true ∧ ∀ d ∈ more, isWordPart d = true

namespace Lexeme

/-- No other lexeme has a text that begins like a word. -/
theorem WellFormed.eq_word {l : Lexeme} {c : Char} {more : List Char} (formed : l.WellFormed)
    (text : l.text = c :: more) (start : isWordStart c = true) : l = .word (c :: more) := by
  cases l with
  | word letters => exact congrArg word text
  | blank d =>
    cases text
    exact absurd formed (by simp [WellFormed, isBlank_of_isWordStart start])
  | whole digits =>
    have digit := formed.2 c (by rw [show digits = _ from text]; exact List.mem_cons_self)
    rw [isDigit_of_isWordStart start] at digit
    cases digit
  | decimal first second =>
    obtain ⟨d, digits, rfl⟩ := List.exists_cons_of_ne_nil formed.1.1
    cases text
    have digit := formed.1.2 c List.mem_cons_self
    rw [isDigit_of_isWordStart start] at digit
    cases digit
  | stray d =>
    cases text
    rw [formed.2.2.1] at start
    cases start
  | quoted q _ | openQuote q _ => cases q <;> cases text <;> exact absurd start (by decide)
  | mark m =>
    rcases m with ⟨_ | _⟩ | ⟨_ | _⟩ | _ <;> cases text <;> exact absurd start (by decide)
  | lineComment | blockComment | openComment => cases text; exact absurd start (by decide)

/-- Only words have keyword tokens. -/
theorem word_of_keyword {l : Lexeme} {p : Position} {t : Token}
    (found : Placed.token? ⟨p, l⟩ = some t) (keyword : t.kind.isKeyword = true) :
    ∃ letters, l = .word letters := by
  cases l with
  | word letters => exact ⟨letters, rfl⟩
  | mark m => cases found; rcases m with _ | _ | _ <;> cases keyword
  | quoted | whole | decimal => cases found; cases keyword
  | _ => cases found

end Lexeme

/-- A word is an identifier if its capitals are no keyword's name. -/
theorem wordKind_eq_identifier_iff {word : String} : wordKind word = .identifier ↔
    ∀ kind : TokenKind, kind.isKeyword = true → capitals word ≠ kind.displayName := by
  constructor
  · intro identifier kind keyword same
    obtain ⟨k, rfl⟩ := TokenKind.isKeyword_iff.mp keyword
    rw [wordKind_of_capitals same] at identifier
    cases identifier
  · intro none
    exact wordKind_of_no_keyword fun k => none (.keyword k) (TokenKind.isKeyword_iff.mpr ⟨k, rfl⟩)

theorem capitals_of_wordKind {word : String} (keyword : (wordKind word).isKeyword = true) :
    capitals word = (wordKind word).displayName := by
  rcases wordKind_cases word with ⟨k, same, kind⟩ | ⟨-, kind⟩
  · rw [kind]
    exact same
  · rw [kind] at keyword
    cases keyword

/-! ## Tokens of words -/

variable {source : String}

theorem mem_tokens_of_placed {x : Placed} {t : Token} (placed : x ∈ placedLexemes source.toList)
    (found : x.token? = some t) : t ∈ (scan source).tokens :=
  List.mem_append_left _ (List.mem_filterMap.mpr ⟨x, placed, found⟩)

theorem exists_token_of_word {x : Placed} (placed : x ∈ placedLexemes source.toList)
    (word : IsWord x.lexeme.text) :
    ∃ t ∈ (scan source).tokens, x.token? = some t ∧ t.position = x.position ∧
      t.value.toList = x.lexeme.text ∧ (t.kind = .identifier ↔
        ∀ kind : TokenKind, kind.isKeyword = true → capitals t.value ≠ kind.displayName) := by
  obtain ⟨p, l⟩ := x
  obtain ⟨c, more, text, start, -⟩ := word
  obtain rfl := (wellFormed_of_mem_placedLexemes placed).eq_word text start
  have found : Placed.token? ⟨p, .word (c :: more)⟩ =
      some ⟨wordKind (.ofList (c :: more)), .ofList (c :: more), p, none⟩ := rfl
  refine ⟨_, mem_tokens_of_placed placed found, found, rfl, String.toList_ofList, ?_⟩
  dsimp only
  exact wordKind_eq_identifier_iff

theorem exists_word_of_keyword {t : Token} (member : t ∈ (scan source).tokens)
    (keyword : t.kind.isKeyword = true) :
    capitals t.value = t.kind.displayName ∧
      ∃ x ∈ placedLexemes source.toList, IsWord x.lexeme.text ∧ x.token? = some t := by
  rcases List.mem_append.mp member with inner | last
  · obtain ⟨⟨p, l⟩, placed, found⟩ := List.mem_filterMap.mp inner
    obtain ⟨letters, rfl⟩ := l.word_of_keyword found keyword
    have formed : IsWord letters := wellFormed_of_mem_placedLexemes placed
    refine ⟨?_, _, placed, formed, found⟩
    cases found
    dsimp only at keyword ⊢
    exact capitals_of_wordKind keyword
  · rw [List.mem_singleton.mp last] at keyword
    cases keyword

/-- A word finds the kind of keyword whose name its capitals are, and no other. So in a scan every
lexeme that is a word gives a token with the word for its value, and this is an identifier exactly
if the capitals are the name of no keyword. A keyword is the token of a word, and its name is that
word in capitals. -/
theorem keyword_names :
    (∀ word kind, (Keyword.ofWord? word).map TokenKind.keyword = some kind ↔
      kind.isKeyword = true ∧ capitals word = kind.displayName) ∧
    ∀ source,
      (∀ x ∈ placedLexemes source.toList, IsWord x.lexeme.text →
        ∃ t ∈ (scan source).tokens, x.token? = some t ∧ t.position = x.position ∧
          t.value.toList = x.lexeme.text ∧ (t.kind = .identifier ↔
            ∀ kind : TokenKind, kind.isKeyword = true → capitals t.value ≠ kind.displayName)) ∧
      ∀ t ∈ (scan source).tokens, t.kind.isKeyword = true →
        capitals t.value = t.kind.displayName ∧
        ∃ x ∈ placedLexemes source.toList, IsWord x.lexeme.text ∧ x.token? = some t :=
  ⟨fun _ _ => TokenKind.map_ofWord?_eq_some_iff,
    fun _ => ⟨fun _ => exists_token_of_word, fun _ => exists_word_of_keyword⟩⟩

end SqlConsole
