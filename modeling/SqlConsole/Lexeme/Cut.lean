import SqlConsole.Lexeme.Basic

/-! Cutting a text into lexemes. `cut` takes one lexeme off the front and `lexemes` repeats
it; nothing is lost or changed: the texts of the lexemes, joined, are the text again. -/
namespace SqlConsole

namespace Lexeme

/-- The body of a block comment and what follows its end, or nothing if it has no end. -/
def commentBody : List Char → Option (List Char × List Char)
  | [] => none
  | '*' :: '/' :: rest => some ([], rest)
  | c :: rest => (commentBody rest).map fun (body, after) => (c :: body, after)

/-- The body of a string and what follows its closing mark, or nothing if it has none. A
mark directly after a backslash does not close. -/
def quotedBody (q : Quote) : List Char → Option (List Char × List Char)
  | [] => none
  | [c] => if c = q.char then some ([], []) else none
  | c :: d :: rest =>
    if c = q.char then some ([], d :: rest)
    else if c = '\\' ∧ d = q.char then
      (quotedBody q rest).map fun (body, after) => (c :: d :: body, after)
    else (quotedBody q (d :: rest)).map fun (body, after) => (c :: body, after)

/-- A run of digits; a point belongs to it only with a digit behind. -/
def cutNumber (text : List Char) : Lexeme × List Char :=
  let digits := text.takeWhile isDigit
  match text.dropWhile isDigit with
  | '.' :: d :: rest =>
    if isDigit d then
      (.decimal digits (d :: rest.takeWhile isDigit), rest.dropWhile isDigit)
    else (.whole digits, '.' :: d :: rest)
  | rest => (.whole digits, rest)

def cutWord (text : List Char) : Lexeme × List Char :=
  (.word (text.takeWhile isWordPart), text.dropWhile isWordPart)

def cutQuoted (q : Quote) (rest : List Char) : Lexeme × List Char :=
  match quotedBody q rest with
  | some (body, after) => (.quoted q body, after)
  | none => (.openQuote q rest, [])

def cutComment (rest : List Char) : Lexeme × List Char :=
  match commentBody rest with
  | some (body, after) => (.blockComment body, after)
  | none => (.openComment rest, [])

/-- Comments and punctuation, the longer spelling first. -/
def cutMark (c : Char) (rest : List Char) : Lexeme × List Char :=
  match c, rest with
  | '-', '-' :: after =>
    (.lineComment (after.takeWhile (· ≠ '\n')), after.dropWhile (· ≠ '\n'))
  | '/', '*' :: after => cutComment after
  | '<', '=' :: after => (.mark (.operator .lessEqual), after)
  | '<', '>' :: after => (.mark .angles, after)
  | '>', '=' :: after => (.mark (.operator .greaterEqual), after)
  | '!', '=' :: after => (.mark (.operator .notEqual), after)
  | c, rest =>
    match Mark.ofChar? c with
    | some m => (.mark m, rest)
    | none => (.stray c, rest)

/-- The first lexeme of the text `c :: rest`, and the text behind it. -/
def cut (c : Char) (rest : List Char) : Lexeme × List Char :=
  if isBlank c then (.blank c, rest)
  else if isDigit c then cutNumber (c :: rest)
  else if isWordStart c then cutWord (c :: rest)
  else match Quote.ofChar? c with
    | some q => cutQuoted q rest
    | none => cutMark c rest

theorem commentBody_text {text body after : List Char}
    (h : commentBody text = some (body, after)) : body ++ '*' :: '/' :: after = text := by
  fun_induction commentBody text generalizing body after with
  | case1 => cases h
  | case2 rest => cases h; rfl
  | case3 c rest _ ih =>
    obtain ⟨⟨b, a⟩, found, eq⟩ := Option.map_eq_some_iff.mp h
    cases eq
    simp [ih found]

theorem quotedBody_text {q : Quote} {text body after : List Char}
    (h : quotedBody q text = some (body, after)) : body ++ q.char :: after = text := by
  fun_induction quotedBody q text generalizing body after with
  | case1 => cases h
  | case2 => cases h; rfl
  | case3 => cases h
  | case4 => cases h; rfl
  | case5 c d rest _ _ ih =>
    obtain ⟨⟨b, a⟩, found, eq⟩ := Option.map_eq_some_iff.mp h
    cases eq
    simp [ih found]
  | case6 c d rest _ _ ih =>
    obtain ⟨⟨b, a⟩, found, eq⟩ := Option.map_eq_some_iff.mp h
    cases eq
    simp [ih found]

theorem cutNumber_text (text : List Char) :
    (cutNumber text).1.text ++ (cutNumber text).2 = text := by
  have split := List.takeWhile_append_dropWhile (p := isDigit) (l := text)
  unfold cutNumber
  split
  next d rest found =>
    rw [found] at split
    split
    · simp only [Lexeme.text, List.append_assoc, List.cons_append,
        List.takeWhile_append_dropWhile]
      exact split
    · exact split
  next => exact split

theorem cutWord_text (text : List Char) :
    (cutWord text).1.text ++ (cutWord text).2 = text :=
  List.takeWhile_append_dropWhile

theorem cutQuoted_text (q : Quote) (rest : List Char) :
    (cutQuoted q rest).1.text ++ (cutQuoted q rest).2 = q.char :: rest := by
  unfold cutQuoted
  split
  next found => simp [Lexeme.text, quotedBody_text found]
  next => simp [Lexeme.text]

theorem cutComment_text (rest : List Char) :
    (cutComment rest).1.text ++ (cutComment rest).2 = '/' :: '*' :: rest := by
  unfold cutComment
  split
  next found => simp [Lexeme.text, commentBody_text found]
  next => simp [Lexeme.text]

theorem cutMark_text (c : Char) (rest : List Char) :
    (cutMark c rest).1.text ++ (cutMark c rest).2 = c :: rest := by
  unfold cutMark
  split
  · simp [Lexeme.text, List.takeWhile_append_dropWhile]
  · exact cutComment_text _
  · rfl
  · rfl
  · rfl
  · rfl
  · split
    next found => simp [Lexeme.text, Mark.text_of_ofChar? found]
    next => simp [Lexeme.text]

/-- Cutting loses nothing. -/
theorem cut_text (c : Char) (rest : List Char) :
    (cut c rest).1.text ++ (cut c rest).2 = c :: rest := by
  unfold cut
  split
  · rfl
  · split
    · exact cutNumber_text _
    · split
      · exact cutWord_text _
      · split
        next found => rw [cutQuoted_text, Quote.char_of_ofChar? found]
        next => exact cutMark_text c rest

theorem cutMark_text_ne_nil (c : Char) (rest : List Char) : (cutMark c rest).1.text ≠ [] := by
  unfold cutMark
  split
  · simp [Lexeme.text]
  · unfold cutComment; split <;> simp [Lexeme.text]
  · simp [Lexeme.text, Mark.text_ne_nil]
  · simp [Lexeme.text, Mark.text_ne_nil]
  · simp [Lexeme.text, Mark.text_ne_nil]
  · simp [Lexeme.text, Mark.text_ne_nil]
  · split <;> simp [Lexeme.text, Mark.text_ne_nil]

/-- Every lexeme takes at least one character. -/
theorem cut_text_ne_nil (c : Char) (rest : List Char) : (cut c rest).1.text ≠ [] := by
  unfold cut
  split
  · simp [Lexeme.text]
  · split
    next digit =>
      unfold cutNumber
      split
      · split <;> simp [Lexeme.text, digit]
      · simp [Lexeme.text, digit]
    · split
      next start =>
        have part : isWordPart c = true := by
          simp only [isWordStart, isWordPart, Bool.or_eq_true] at start ⊢
          rcases start with h | h <;> simp [h]
        simp [cutWord, Lexeme.text, part]
      · split
        · unfold cutQuoted; split <;> simp [Lexeme.text]
        · exact cutMark_text_ne_nil c rest

theorem cut_rest_length (c : Char) (rest : List Char) : (cut c rest).2.length ≤ rest.length := by
  have total := congrArg List.length (cut_text c rest)
  have taken := List.length_pos_iff.mpr (cut_text_ne_nil c rest)
  simp only [List.length_append, List.length_cons] at total
  omega

end Lexeme

/-- The whole text, cut. -/
def lexemes : List Char → List Lexeme
  | [] => []
  | c :: rest => (Lexeme.cut c rest).1 :: lexemes (Lexeme.cut c rest).2
termination_by text => text.length
decreasing_by exact Nat.lt_succ_of_le (Lexeme.cut_rest_length c rest)

/-- Joined again, the lexemes of a text are the text. -/
theorem flatMap_text_lexemes (text : List Char) : (lexemes text).flatMap Lexeme.text = text := by
  fun_induction lexemes text with
  | case1 => rfl
  | case2 c rest ih => rw [List.flatMap_cons, ih, Lexeme.cut_text]

end SqlConsole
