import SqlConsole.Proofs.Lexeme.Longest

/-! Blanks separate. A lexeme that is closed is cut off alike whatever follows a blank behind
the text; only a line comment reads on over blanks, up to the newline. -/
namespace SqlConsole

namespace Lexeme

/-- The blank `d` behind the text cannot change the lexeme. -/
def EndsBefore (d : Char) : Lexeme → Prop
  | openComment _ | openQuote _ _ => False
  | lineComment _ => d = '\n'
  | _ => True

/-- A blank goes on with nothing: it is in no word and no numeral, and no sign ends with it. -/
theorem blank_cases {d : Char} (blank : isBlank d = true) :
    isDigit d = false ∧ isWordPart d = false ∧
      d ≠ '.' ∧ d ≠ '-' ∧ d ≠ '*' ∧ d ≠ '=' ∧ d ≠ '>' := by
  simp only [isBlank, Bool.or_eq_true, decide_eq_true_eq] at blank
  rcases blank with ((rfl | rfl) | rfl) | rfl <;> decide

theorem takeWhile_append_cons {p : Char → Bool} {d : Char} (outside : p d = false)
    (text after : List Char) : (text ++ d :: after).takeWhile p = text.takeWhile p := by
  induction text with
  | nil => simp [outside]
  | cons c text ih => simp [List.takeWhile_cons, ih]

theorem dropWhile_append_cons {p : Char → Bool} {d : Char} (outside : p d = false)
    (text after : List Char) :
    (text ++ d :: after).dropWhile p = text.dropWhile p ++ d :: after := by
  induction text with
  | nil => simp [outside]
  | cons c text ih => by_cases inside : p c = true <;> simp [inside, ih]

theorem commentBody_append {text body left : List Char}
    (found : commentBody text = some (body, left)) (after : List Char) :
    commentBody (text ++ after) = some (body, left ++ after) := by
  rw [← commentBody_text found, List.append_assoc]
  exact commentBody_of_noCommentEnd (noCommentEnd_of_commentBody found) _

theorem quotedBody_append {q : Quote} {text body left : List Char}
    (found : quotedBody q text = some (body, left)) (after : List Char) :
    quotedBody q (text ++ after) = some (body, left ++ after) := by
  obtain ⟨inside, last⟩ := noClosingMark_of_quotedBody found
  rw [← quotedBody_text found, List.append_assoc]
  exact quotedBody_of_noClosingMark inside last _

variable {d : Char} {rest : List Char}

theorem cutNumber_append (blank : isBlank d = true) (after : List Char) :
    cutNumber (rest ++ d :: after) =
      ((cutNumber rest).1, (cutNumber rest).2 ++ d :: after) := by
  obtain ⟨digit, _, point, _⟩ := blank_cases blank
  unfold cutNumber
  rw [takeWhile_append_cons digit, dropWhile_append_cons digit]
  rcases rest.dropWhile isDigit with _ | ⟨c, _ | ⟨e, more⟩⟩
  · simp [point]
  · by_cases isPoint : c = '.'
    · simp [isPoint, digit]
    · simp [isPoint]
  · by_cases isPoint : c = '.'
    · subst isPoint
      by_cases second : isDigit e = true
      · simp [second, takeWhile_append_cons digit, dropWhile_append_cons digit]
      · simp [second]
    · simp [isPoint]

theorem cutQuoted_append {q : Quote} (ends : (cutQuoted q rest).1.EndsBefore d)
    (after : List Char) :
    cutQuoted q (rest ++ after) = ((cutQuoted q rest).1, (cutQuoted q rest).2 ++ after) := by
  unfold cutQuoted at ends ⊢
  cases found : quotedBody q rest with
  | none => rw [found] at ends; exact ends.elim
  | some pair => rw [quotedBody_append found]

theorem cutComment_append (ends : (cutComment rest).1.EndsBefore d) (after : List Char) :
    cutComment (rest ++ after) = ((cutComment rest).1, (cutComment rest).2 ++ after) := by
  unfold cutComment at ends ⊢
  cases found : commentBody rest with
  | none => rw [found] at ends; exact ends.elim
  | some pair => rw [commentBody_append found]

/-- The pairs of characters that begin a comment or are one sign. -/
def pairs : List (Char × Char) :=
  [('-', '-'), ('/', '*'), ('<', '='), ('<', '>'), ('>', '='), ('!', '=')]

/-- The lexeme that a character outside words, numbers, strings and blanks is on its own. -/
def alone (c : Char) : Lexeme :=
  match Mark.ofChar? c with
  | some m => .mark m
  | none => .stray c

theorem cutMark_alone_of_notMem {c : Char} (single : ∀ e ∈ rest.head?, (c, e) ∉ pairs) :
    cutMark c rest = (alone c, rest) := by
  have other {a b : Char} (pair : (a, b) ∈ pairs) :
      ∀ after, c = a → rest = b :: after → False := by
    rintro after rfl rfl
    exact single b rfl pair
  rw [cutMark.eq_7 c rest (other (by decide)) (other (by decide)) (other (by decide))
    (other (by decide)) (other (by decide)) (other (by decide)), alone]
  cases Mark.ofChar? c <;> rfl

theorem cutMark_append {c : Char} (blank : isBlank d = true)
    (ends : (cutMark c rest).1.EndsBefore d) (after : List Char) :
    cutMark c (rest ++ d :: after) = ((cutMark c rest).1, (cutMark c rest).2 ++ d :: after) := by
  by_cases single : ∀ e ∈ rest.head?, (c, e) ∉ pairs
  · have single' : ∀ e ∈ (rest ++ d :: after).head?, (c, e) ∉ pairs := by
      cases rest with
      | nil =>
        obtain ⟨_, _, _, dash, star, equal, angle⟩ := blank_cases blank
        simp [pairs, dash, star, equal, angle]
      | cons e more => simpa using single
    rw [cutMark_alone_of_notMem single, cutMark_alone_of_notMem single']
  · simp only [not_forall, not_not] at single
    obtain ⟨e, head, pair⟩ := single
    obtain ⟨more, rfl⟩ := List.head?_eq_some_iff.mp head
    simp only [pairs, List.mem_cons, Prod.mk.injEq, List.not_mem_nil, or_false] at pair
    rcases pair with ⟨rfl, rfl⟩ | ⟨rfl, rfl⟩ | ⟨rfl, rfl⟩ | ⟨rfl, rfl⟩ | ⟨rfl, rfl⟩ | ⟨rfl, rfl⟩
    · have newline : d = '\n' := ends
      have outside : (decide (d ≠ '\n')) = false := by simp [newline]
      change (lineComment ((more ++ d :: after).takeWhile (· ≠ '\n')),
        (more ++ d :: after).dropWhile (· ≠ '\n')) = _
      rw [takeWhile_append_cons outside, dropWhile_append_cons outside]
      rfl
    · exact cutComment_append ends _
    · rfl
    · rfl
    · rfl
    · rfl

/-- Cutting does not look through a blank. -/
theorem cut_append {c : Char} (blank : isBlank d = true) (ends : (cut c rest).1.EndsBefore d)
    (after : List Char) :
    cut c (rest ++ d :: after) = ((cut c rest).1, (cut c rest).2 ++ d :: after) := by
  obtain ⟨_, part, _⟩ := blank_cases blank
  unfold cut at ends ⊢
  split
  · rfl
  next notBlank =>
    split
    · rw [← List.cons_append, cutNumber_append blank]
    next notDigit =>
      split
      · simp only [cutWord, ← List.cons_append, takeWhile_append_cons part,
          dropWhile_append_cons part]
      next notStart =>
        rw [if_neg notBlank, if_neg notDigit, if_neg notStart] at ends
        cases quote : Quote.ofChar? c with
        | some q =>
          rw [quote] at ends
          exact cutQuoted_append ends _
        | none =>
          rw [quote] at ends
          exact cutMark_append blank ends _

end Lexeme

theorem Lexeme.cut_blank {d : Char} (blank : isBlank d = true) (after : List Char) :
    cut d after = (.blank d, after) := by simp [cut, blank]

/-- Around a blank, the lexemes of two texts are those that each of them has. -/
theorem lexemes_append_blank {d : Char} (blank : isBlank d = true) {text : List Char}
    (ends : ∀ l ∈ lexemes text, l.EndsBefore d) (after : List Char) :
    lexemes (text ++ d :: after) = lexemes text ++ .blank d :: lexemes after := by
  fun_induction lexemes text with
  | case1 => rw [List.nil_append, lexemes, Lexeme.cut_blank blank, List.nil_append]
  | case2 c rest ih =>
    obtain ⟨first, later⟩ := List.forall_mem_cons.mp ends
    rw [List.cons_append, lexemes, Lexeme.cut_append blank first, List.cons_append, ih later]

end SqlConsole
