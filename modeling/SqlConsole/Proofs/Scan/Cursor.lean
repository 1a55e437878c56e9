import SqlConsole.Proofs.Lexeme.Separation
import SqlConsole.Proofs.Text.Runs
import SqlConsole.Scan.Scanner

/-! The cursor against the cut. What a scanner reads is decided by the text in front of its cursor,
and each of its readers goes over the text of the lexeme that would be cut off there. So the lexemes
of the text are what it has gone over when it is done. -/
namespace SqlConsole

/-! ## What the cut takes off -/

theorem push_append_ofList (value : String) (c : Char) (text : List Char) :
    value.push c ++ String.ofList text = value ++ String.ofList (c :: text) := by
  rw [String.ofList_cons, ← String.append_assoc, String.append_singleton]

theorem Binary64.ofText?_whole {digits : List Char} (valid : Digits digits) :
    ofText? (String.ofList digits) = some (ofNumeral digits []) := by
  have whole : digits.takeWhile isDigit = digits := List.takeWhile_eq_self_iff.mpr valid.2
  have left : digits.dropWhile isDigit = [] := List.dropWhile_eq_nil_iff.mpr valid.2
  simp [ofText?, whole, left, valid.1]

theorem Binary64.ofText?_decimal {first second : List Char} (valid : Digits first)
    (behind : Digits second) :
    ofText? (String.ofList (first ++ '.' :: second)) = some (ofNumeral first second) := by
  have point : ∀ c ∈ ('.' :: second).head?, isDigit c = false := by
    rintro c ⟨⟩
    rfl
  obtain ⟨whole, left⟩ := takeWhile_of_stop valid.2 point
  have fraction : second.all isDigit = true := List.all_eq_true.mpr behind.2
  simp [ofText?, whole, left, valid.1, fraction]

namespace Lexeme

variable {q : Quote} {c : Char} {text : List Char}

/-- The text of a numeral is read as the number that its token has. -/
theorem ofText?_cutNumber (p : Position) (digit : isDigit c = true) (text : List Char) :
    ∃ number, Binary64.ofText? (String.ofList (cutNumber (c :: text)).1.text) = some number ∧
      Placed.token? ⟨p, (cutNumber (c :: text)).1⟩ =
        some ⟨.number, String.ofList (cutNumber (c :: text)).1.text, p, some number⟩ ∧
      Placed.fault? ⟨p, (cutNumber (c :: text)).1⟩ = none := by
  have first := digits_takeWhile digit text
  unfold cutNumber
  split
  next d after _ =>
    split
    next second =>
      have behind := digits_takeWhile second after
      rw [List.takeWhile_cons_of_pos second] at behind
      exact ⟨_, Binary64.ofText?_decimal first behind, rfl, rfl⟩
    next => exact ⟨_, Binary64.ofText?_whole first, rfl, rfl⟩
  next => exact ⟨_, Binary64.ofText?_whole first, rfl, rfl⟩

/-- What stands in front of the mark that closes a string, or the whole text if none closes it. -/
def bodyAhead (q : Quote) (text : List Char) : List Char :=
  match quotedBody q text with
  | some (body, _) => body
  | none => text

theorem bodyAhead_mark (q : Quote) (text : List Char) : bodyAhead q (q.char :: text) = [] := by
  simp [bodyAhead, quotedBody_mark]

theorem bodyAhead_escaped (q : Quote) (text : List Char) :
    bodyAhead q ('\\' :: q.char :: text) = '\\' :: q.char :: bodyAhead q text := by
  unfold bodyAhead
  rw [quotedBody_escaped]
  cases quotedBody q text <;> rfl

theorem bodyAhead_cons (ordinary : c ≠ q.char)
    (unescaped : ¬ (c = '\\' ∧ text.head? = some q.char)) :
    bodyAhead q (c :: text) = c :: bodyAhead q text := by
  unfold bodyAhead
  rw [quotedBody_cons ordinary unescaped]
  cases quotedBody q text <;> rfl

theorem bodyAhead_prefix (q : Quote) (text : List Char) : bodyAhead q text <+: text := by
  unfold bodyAhead
  split
  next body after found => exact ⟨q.char :: after, quotedBody_text found⟩
  next => exact List.prefix_rfl

/-- The body does not let a backslash escape what the text does not. -/
theorem unescaped_bodyAhead (unescaped : ¬ (c = '\\' ∧ text.head? = some q.char)) :
    ¬ (c = '\\' ∧ (bodyAhead q text).head? = some q.char) := by
  rintro ⟨backslash, mark⟩
  obtain ⟨body, eq⟩ := List.head?_eq_some_iff.mp mark
  obtain ⟨after, split⟩ := bodyAhead_prefix q text
  rw [eq] at split
  exact unescaped ⟨backslash, by rw [← split]; rfl⟩

end Lexeme

namespace Scanner

variable {s : Scanner} {c : Char} {text more : List Char}

/-- The text in front of the cursor. -/
def rest (s : Scanner) : List Char := s.input.toList.drop s.cursor

/-- The scanner that has gone over `text`. -/
def past (s : Scanner) (text : List Char) : Scanner :=
  { s with cursor := s.cursor + text.length, position := s.position.after text }

@[simp] theorem past_nil (s : Scanner) : s.past [] = s := rfl

@[simp] theorem past_past (s : Scanner) (text more : List Char) :
    (s.past text).past more = s.past (text ++ more) := by
  simp [past, Nat.add_assoc]

theorem rest_past (ahead : s.rest = text ++ more) : (s.past text).rest = more := by
  change s.input.toList.drop (s.cursor + text.length) = more
  rw [← List.drop_drop, show s.input.toList.drop s.cursor = _ from ahead, List.drop_left]

/-! ## Looking and taking -/

theorem peek_eq (s : Scanner) : s.peek = s.rest.head? := by
  simp [peek, rest, List.head?_drop]

theorem exists_rest_of_peek (next : s.peek = some c) : ∃ text, s.rest = c :: text := by
  rw [peek_eq] at next
  exact List.head?_eq_some_iff.mp next

theorem peekNext_eq (s : Scanner) : s.peekNext = s.rest.tail.head? := by
  simp [peekNext, rest, List.head?_drop]

theorem atEnd_iff : s.atEnd = true ↔ s.rest = [] := by
  simp [atEnd, rest, List.drop_eq_nil_iff]

theorem advance_eq (ahead : s.rest = c :: text) : s.advance = (c, s.past [c]) := by
  simp [advance, peek_eq, ahead, past]

theorem skip_eq (ahead : s.rest = c :: text) : s.skip = s.past [c] := by
  rw [skip, advance_eq ahead]

theorem take?_eq_some (ahead : s.rest = c :: text) : s.take? c = some (s.past [c]) := by
  simp [take?, peek_eq, ahead, skip_eq ahead]

theorem take?_eq_none (other : s.rest.head? ≠ some c) : s.take? c = none := by
  simp [take?, peek_eq, other]

theorem take?_past {d : Char} (ahead : s.rest = c :: d :: text) :
    (s.past [c]).take? d = some (s.past [c, d]) := by
  have behind : (s.past [c]).rest = d :: text := rest_past ahead
  rw [take?_eq_some behind, past_past]
  rfl

theorem lexeme_past (begins : s.start = s.cursor) (ahead : s.rest = text ++ more) :
    (s.past text).lexeme = String.ofList text := by
  have taken : (s.input.toList.drop s.cursor).take text.length = text := by
    rw [show s.input.toList.drop s.cursor = _ from ahead, List.take_left]
  simp [lexeme, past, begins, Array.toList_extract, List.extract_eq_take_drop, taken]

theorem skipWhile_eq (p : Char → Bool) (s : Scanner) :
    s.skipWhile p = s.past (s.rest.takeWhile p) := by
  fun_induction skipWhile p s with
  | case1 s none =>
    rw [peek_eq, List.head?_eq_none_iff] at none
    rw [none, List.takeWhile_nil, past_nil]
  | case2 s c next inside ih =>
    obtain ⟨text, ahead⟩ := exists_rest_of_peek next
    have behind : (s.past [c]).rest = text := rest_past ahead
    rw [skip_eq ahead] at ih ⊢
    rw [ih, behind, ahead, List.takeWhile_cons_of_pos inside, past_past, List.singleton_append]
  | case3 s c next outside =>
    obtain ⟨text, ahead⟩ := exists_rest_of_peek next
    rw [ahead, List.takeWhile_cons_of_neg outside, past_nil]

theorem skipWhile_past (p : Char → Bool) (ahead : s.rest = text ++ more) :
    (s.past text).skipWhile p = s.past (text ++ more.takeWhile p) := by
  rw [skipWhile_eq, rest_past ahead, past_past]

/-! ## Collecting what has been gone over -/

/-- The scanner that has read the lexeme: it has gone over the text and has added what the lexeme
gives. -/
def took (s : Scanner) (l : Lexeme) : Scanner :=
  { s.past l.text with
    tokens := s.tokens ++ (Placed.token? ⟨s.startPosition, l⟩).toList
    faults := s.faults ++ (Placed.fault? ⟨s.startPosition, l⟩).toList }

variable {l : Lexeme}

theorem took_nothing (noToken : Placed.token? ⟨s.startPosition, l⟩ = none)
    (noFault : Placed.fault? ⟨s.startPosition, l⟩ = none) : s.took l = s.past l.text := by
  simp [took, noToken, noFault, past]

theorem took_token {token : Token} (found : Placed.token? ⟨s.startPosition, l⟩ = some token)
    (noFault : Placed.fault? ⟨s.startPosition, l⟩ = none) :
    s.took l = (s.past l.text).addToken token := by
  simp [took, found, noFault, addToken, past]

theorem took_fault {cause : ScanCause} (noToken : Placed.token? ⟨s.startPosition, l⟩ = none)
    (found : Placed.fault? ⟨s.startPosition, l⟩ = some ⟨cause, s.startPosition⟩) :
    s.took l = (s.past l.text).addFault cause := by
  simp [took, noToken, found, addFault, past]

/-! ## Words and numbers -/

theorem readWord_eq (begins : s.start = s.cursor) (ahead : s.rest = c :: text)
    (part : isWordPart c = true) :
    (s.past [c]).readWord = s.took (Lexeme.cutWord (c :: text)).1 := by
  have taken : [c] ++ text.takeWhile isWordPart = (c :: text).takeWhile isWordPart :=
    (List.takeWhile_cons_of_pos part).symm
  have split := List.takeWhile_append_dropWhile (p := isWordPart) (l := c :: text)
  rw [readWord, skipWhile_past _ ahead, taken, addLexeme, addText,
    lexeme_past begins (ahead.trans split.symm)]
  exact (took_token (l := .word _) rfl rfl).symm

theorem skipNumber_eq (ahead : s.rest = c :: text) (digit : isDigit c = true) :
    (s.past [c]).skipNumber = s.past (Lexeme.cutNumber (c :: text)).1.text := by
  have taken : [c] ++ text.takeWhile isDigit = (c :: text).takeWhile isDigit :=
    (List.takeWhile_cons_of_pos digit).symm
  have split := ahead.trans (List.takeWhile_append_dropWhile (p := isDigit) (l := c :: text)).symm
  unfold skipNumber Lexeme.cutNumber
  rw [skipWhile_past _ ahead, taken]
  generalize (c :: text).takeWhile isDigit = digits at split ⊢
  generalize (c :: text).dropWhile isDigit = behind at split ⊢
  simp only [peek_eq, peekNext_eq, rest_past split]
  split
  next fractional =>
    obtain ⟨point, second⟩ := fractional
    obtain ⟨after, rfl⟩ := List.head?_eq_some_iff.mp point
    cases after with
    | nil => cases second
    | cons d after =>
      have second : isDigit d = true := second
      have point : s.rest = (digits ++ ['.']) ++ d :: after := by simp [split]
      rw [skip_eq (rest_past split), past_past, skipWhile_past _ point,
        List.takeWhile_cons_of_pos second]
      simp [second, Lexeme.text]
  next whole =>
    split
    next d after =>
      have second : ¬ isDigit d = true := fun digit => whole ⟨rfl, digit⟩
      rw [if_neg second]
      rfl
    next => rfl

theorem readNumber_eq (begins : s.start = s.cursor) (ahead : s.rest = c :: text)
    (digit : isDigit c = true) :
    (s.past [c]).readNumber = s.took (Lexeme.cutNumber (c :: text)).1 := by
  have split := ahead.trans (Lexeme.cutNumber_text (c :: text)).symm
  obtain ⟨number, read, token, clean⟩ := Lexeme.ofText?_cutNumber s.startPosition digit text
  rw [readNumber, skipNumber_eq ahead digit, lexeme_past begins split, took_token token clean]
  simp only [read]
  rfl

/-! ## Comments and strings -/

theorem skipBlockComment_eq (s : Scanner) : s.skipBlockComment =
    match Lexeme.commentBody s.rest with
    | some (body, _) => s.past (body ++ ['*', '/'])
    | none => (s.past s.rest).addFault .unterminatedComment := by
  fun_induction skipBlockComment s with
  | case1 s none =>
    rw [peek_eq, List.head?_eq_none_iff] at none
    rw [none]
    rfl
  | case2 s c next closing =>
    obtain ⟨text, ahead⟩ := exists_rest_of_peek next
    obtain ⟨rfl, slash⟩ := closing
    rw [peekNext_eq, ahead, List.tail_cons] at slash
    obtain ⟨after, rfl⟩ := List.head?_eq_some_iff.mp slash
    rw [skip_eq ahead, skip_eq (rest_past ahead), ahead]
    rfl
  | case3 s c next inside ih =>
    obtain ⟨text, ahead⟩ := exists_rest_of_peek next
    rw [peekNext_eq, ahead, List.tail_cons] at inside
    have behind : (s.past [c]).rest = text := rest_past ahead
    rw [skip_eq ahead, behind] at ih
    rw [skip_eq ahead, ih, ahead, Lexeme.commentBody_cons inside]
    cases Lexeme.commentBody text with
    | none => simp
    | some found => simp

/-- One round of reading a body, with the text in front of the cursor in sight. -/
theorem readBody_cons (q : Quote) (value : String) (ahead : s.rest = c :: text) :
    s.readBody q value =
      if c = q.char then (value, s)
      else
        let behind := if c = '\\' ∧ text.head? = some q.char then s.past [c] else s
        behind.skip.readBody q (value.push behind.advance.1) := by
  have next : s.peek = some c := by rw [peek_eq, ahead, List.head?_cons]
  rw [readBody_of_peek next, peekNext_eq, ahead, List.tail_cons, skip_eq ahead]

theorem readBody_nil (q : Quote) (value : String) (ahead : s.rest = []) :
    s.readBody q value = (value, s) := by
  have none : s.peek = none := by rw [peek_eq, ahead, List.head?_nil]
  exact readBody_of_peek_none none

theorem readBody_eq (q : Quote) (value : String) (s : Scanner) : s.readBody q value =
    (value ++ String.ofList (q.unescape (Lexeme.bodyAhead q s.rest)),
      s.past (Lexeme.bodyAhead q s.rest)) := by
  generalize ahead : s.rest = text
  induction text using Lexeme.quoted_cases (q := q) generalizing s value with
  | nil =>
    rw [readBody_nil q value ahead]
    simp [Lexeme.bodyAhead, Lexeme.quotedBody, Quote.unescape]
  | closing text =>
    rw [readBody_cons q value ahead, if_pos rfl, Lexeme.bodyAhead_mark]
    simp [Quote.unescape]
  | escaped text ih =>
    have mark : (s.past ['\\']).rest = q.char :: text := rest_past ahead
    have behind : (s.past ['\\', q.char]).rest = text := rest_past ahead
    rw [readBody_cons q value ahead, if_neg (Ne.symm q.char_ne_backslash)]
    simp only [List.head?_cons, and_self, if_true, advance_eq mark, skip_eq mark, past_past]
    rw [List.singleton_append, ih _ _ behind, Lexeme.bodyAhead_escaped,
      q.unescape_escaped, past_past, push_append_ofList]
    rfl
  | plain c text ordinary unescaped ih =>
    have behind : (s.past [c]).rest = text := rest_past ahead
    rw [readBody_cons q value ahead, if_neg ordinary]
    simp only [if_neg unescaped, advance_eq ahead, skip_eq ahead]
    rw [ih _ _ behind, Lexeme.bodyAhead_cons ordinary unescaped,
      Quote.unescape_cons (Lexeme.unescaped_bodyAhead unescaped), past_past, push_append_ofList]
    rfl

theorem readString_eq (q : Quote) (ahead : s.rest = q.char :: text) :
    (s.past [q.char]).readString q = s.took (Lexeme.cutQuoted q text).1 := by
  have inside : (s.past [q.char]).rest = text := rest_past ahead
  unfold readString Lexeme.cutQuoted
  rw [readBody_eq, inside, Lexeme.bodyAhead]
  cases found : Lexeme.quotedBody q text with
  | none =>
    have behind : ((s.past [q.char]).past text).rest = [] :=
      rest_past (by rw [inside, List.append_nil])
    dsimp only
    rw [if_pos (atEnd_iff.mpr behind), past_past]
    exact (took_fault (l := .openQuote q text) rfl rfl).symm
  | some pair =>
    obtain ⟨body, after⟩ := pair
    have closing : ((s.past [q.char]).past body).rest = q.char :: after :=
      rest_past (by rw [inside, Lexeme.quotedBody_text found])
    have more : ¬ ((s.past [q.char]).past body).atEnd = true := by
      rw [atEnd_iff, closing]
      exact List.cons_ne_nil _ _
    dsimp only
    rw [if_neg more, skip_eq closing, past_past, past_past, String.empty_append]
    exact (took_token (l := .quoted q body) rfl rfl).symm

theorem skipComment_eq (ahead : s.rest = '/' :: '*' :: text) :
    (s.past ['/', '*']).skipBlockComment = s.took (Lexeme.cutComment text).1 := by
  have inside : (s.past ['/', '*']).rest = text := rest_past ahead
  rw [skipBlockComment_eq, inside, Lexeme.cutComment]
  cases Lexeme.commentBody text with
  | none =>
    dsimp only
    rw [past_past]
    exact (took_fault (l := .openComment text) rfl rfl).symm
  | some found =>
    dsimp only
    rw [past_past]
    exact (took_nothing (l := .blockComment found.1) rfl rfl).symm

/-! ## One lexeme -/

theorem addLexeme_past (begins : s.start = s.cursor) (m : Mark) (ahead : s.rest = m.text ++ more) :
    (s.past m.text).addLexeme m.kind = s.took (.mark m) := by
  rw [addLexeme, lexeme_past begins ahead]
  exact (took_token (l := .mark m) rfl rfl).symm

/-- A sign stands alone if what follows it makes no longer one of it. -/
theorem addLexeme_alone {m : Mark} (begins : s.start = s.cursor) (ahead : s.rest = c :: text)
    (sign : Mark.ofChar? c = some m) (single : ∀ e, (c, e) ∈ Lexeme.pairs → text.head? ≠ some e) :
    (s.past [c]).addLexeme m.kind = s.took (Lexeme.cut c text).1 := by
  have written := Mark.text_of_ofChar? sign
  have cut := Lexeme.cutMark_alone_of_notMem fun e first pair => single e pair first
  rw [Lexeme.cut_mark sign, cut, Lexeme.alone, sign, ← written]
  exact addLexeme_past begins m (by rw [written]; exact ahead)

theorem readOther_eq (begins : s.start = s.cursor) (ahead : s.rest = c :: text)
    (single : ∀ e, (c, e) ∉ Lexeme.pairs) (bang : c ≠ '!') :
    (s.past [c]).readOther c = s.took (Lexeme.cut c text).1 := by
  unfold readOther
  split
  next blank =>
    rw [Lexeme.cut_blank blank]
    exact (took_nothing (l := .blank c) rfl rfl).symm
  next blank =>
    split
    next digit => rw [readNumber_eq begins ahead digit, Lexeme.cut_digit digit]
    next digit =>
      split
      next start =>
        rw [readWord_eq begins ahead (Lexeme.isWordPart_of_isWordStart start),
          Lexeme.cut_wordStart start]
      next start =>
        split
        next q quote =>
          obtain rfl := Quote.char_of_ofChar? quote
          rw [readString_eq q ahead, Lexeme.cut_quote]
        next quote =>
          split
          next m sign =>
            exact addLexeme_alone begins ahead sign fun e pair => absurd pair (single e)
          next sign =>
            have stray : Lexeme.cut c text = (.stray c, text) := by
              rw [Lexeme.cut, if_neg blank, if_neg digit, if_neg start, quote]
              simp only
              rw [Lexeme.cutMark_alone_of_notMem fun e _ => single e, Lexeme.alone, sign]
            rw [stray]
            exact (took_fault (l := .stray c) rfl (by simp [Placed.fault?, bang])).symm

theorem take?_past_eq_none {d : Char} (ahead : s.rest = c :: text) (second : text.head? ≠ some d) :
    (s.past [c]).take? d = none :=
  take?_eq_none (by rwa [rest_past ahead])

theorem readFrom_dash (begins : s.start = s.cursor) (ahead : s.rest = '-' :: text) :
    (s.past ['-']).readFrom '-' = s.took (Lexeme.cut '-' text).1 := by
  rw [readFrom]
  by_cases dash : text.head? = some '-'
  · obtain ⟨after, rfl⟩ := List.head?_eq_some_iff.mp dash
    have inside : s.rest = ['-', '-'] ++ after := ahead
    rw [take?_past ahead, Lexeme.cut_dashes]
    dsimp only
    rw [skipLineComment, skipWhile_past _ inside]
    exact (took_nothing (l := .lineComment _) rfl rfl).symm
  · rw [take?_past_eq_none ahead dash]
    exact addLexeme_alone (m := .operator .minus) begins ahead rfl
      (by simpa [Lexeme.pairs] using dash)

theorem readFrom_slash (begins : s.start = s.cursor) (ahead : s.rest = '/' :: text) :
    (s.past ['/']).readFrom '/' = s.took (Lexeme.cut '/' text).1 := by
  rw [readFrom]
  by_cases star : text.head? = some '*'
  · obtain ⟨after, rfl⟩ := List.head?_eq_some_iff.mp star
    rw [take?_past ahead, Lexeme.cut_slashStar]
    exact skipComment_eq ahead
  · rw [take?_past_eq_none ahead star]
    exact addLexeme_alone (m := .operator .slash) begins ahead rfl
      (by simpa [Lexeme.pairs] using star)

theorem readFrom_less (begins : s.start = s.cursor) (ahead : s.rest = '<' :: text) :
    (s.past ['<']).readFrom '<' = s.took (Lexeme.cut '<' text).1 := by
  rw [readFrom]
  by_cases equal : text.head? = some '='
  · obtain ⟨after, rfl⟩ := List.head?_eq_some_iff.mp equal
    rw [take?_past ahead]
    exact addLexeme_past begins (.operator .lessEqual) ahead
  · rw [take?_past_eq_none ahead equal]
    by_cases angle : text.head? = some '>'
    · obtain ⟨after, rfl⟩ := List.head?_eq_some_iff.mp angle
      rw [take?_past ahead]
      exact addLexeme_past begins .angles ahead
    · rw [take?_past_eq_none ahead angle]
      exact addLexeme_alone (m := .operator .lessThan) begins ahead rfl
        (by simpa [Lexeme.pairs, or_imp, forall_and] using ⟨equal, angle⟩)

theorem readFrom_greater (begins : s.start = s.cursor) (ahead : s.rest = '>' :: text) :
    (s.past ['>']).readFrom '>' = s.took (Lexeme.cut '>' text).1 := by
  rw [readFrom]
  by_cases equal : text.head? = some '='
  · obtain ⟨after, rfl⟩ := List.head?_eq_some_iff.mp equal
    rw [take?_past ahead]
    exact addLexeme_past begins (.operator .greaterEqual) ahead
  · rw [take?_past_eq_none ahead equal]
    exact addLexeme_alone (m := .operator .greaterThan) begins ahead rfl
      (by simpa [Lexeme.pairs] using equal)

theorem readFrom_bang (begins : s.start = s.cursor) (ahead : s.rest = '!' :: text) :
    (s.past ['!']).readFrom '!' = s.took (Lexeme.cut '!' text).1 := by
  rw [readFrom]
  by_cases equal : text.head? = some '='
  · obtain ⟨after, rfl⟩ := List.head?_eq_some_iff.mp equal
    rw [take?_past ahead]
    exact addLexeme_past begins (.operator .notEqual) ahead
  · have single : ∀ e ∈ text.head?, ('!', e) ∉ Lexeme.pairs := by
      rintro e first pair
      obtain rfl : e = '=' := by simpa [Lexeme.pairs] using pair
      exact equal first
    have lone : Lexeme.cut '!' text = (.stray '!', text) := Lexeme.cutMark_alone_of_notMem single
    rw [take?_past_eq_none ahead equal, lone]
    exact (took_fault (l := .stray '!') rfl rfl).symm

/-- The reader takes what the cut takes off. -/
theorem readFrom_eq (begins : s.start = s.cursor) (ahead : s.rest = c :: text) :
    (s.past [c]).readFrom c = s.took (Lexeme.cut c text).1 := by
  by_cases opens : c ∈ ['-', '/', '<', '>', '!']
  · simp only [List.mem_cons, List.not_mem_nil, or_false] at opens
    rcases opens with rfl | rfl | rfl | rfl | rfl
    · exact readFrom_dash begins ahead
    · exact readFrom_slash begins ahead
    · exact readFrom_less begins ahead
    · exact readFrom_greater begins ahead
    · exact readFrom_bang begins ahead
  · have openers : ∀ pair ∈ Lexeme.pairs, pair.1 ∈ ['-', '/', '<', '>', '!'] := by decide
    have single (e : Char) : (c, e) ∉ Lexeme.pairs := fun pair => opens (openers _ pair)
    simp only [List.mem_cons, List.not_mem_nil, or_false, not_or] at opens
    obtain ⟨dash, slash, less, greater, bang⟩ := opens
    rw [readFrom.eq_6 _ _ dash slash less greater bang]
    exact readOther_eq begins ahead single bang

theorem scanToken_eq (ahead : s.rest = c :: text) :
    s.scanToken = s.beginLexeme.took (Lexeme.cut c text).1 := by
  have ahead : s.beginLexeme.rest = c :: text := ahead
  rw [scanToken, skip_eq ahead, advance_eq ahead]
  exact readFrom_eq rfl ahead

theorem rest_scanToken (ahead : s.rest = c :: text) : s.scanToken.rest = (Lexeme.cut c text).2 := by
  have split : s.rest = (Lexeme.cut c text).1.text ++ (Lexeme.cut c text).2 := by
    rw [ahead, Lexeme.cut_text]
  rw [scanToken_eq ahead]
  exact rest_past (s := s.beginLexeme) split

/-! ## All lexemes -/

/-- A scan goes over the text that is left, and it adds what the lexemes of this text give. -/
theorem scanTokens_eq (s : Scanner) :
    s.scanTokens.position = s.position.after s.rest ∧
    s.scanTokens.tokens =
      s.tokens ++ (place s.position (lexemes s.rest)).filterMap Placed.token? ∧
    s.scanTokens.faults =
      s.faults ++ (place s.position (lexemes s.rest)).filterMap Placed.fault? := by
  fun_induction scanTokens s with
  | case1 s done =>
    rw [atEnd_iff.mp done, lexemes]
    simp [place]
  | case2 s more ih =>
    obtain ⟨c, text, ahead⟩ := List.exists_cons_of_ne_nil (mt atEnd_iff.mpr more)
    have position : s.scanToken.position = s.position.after (Lexeme.cut c text).1.text := by
      rw [scanToken_eq ahead]
      rfl
    obtain ⟨lastPosition, lastTokens, lastFaults⟩ := ih
    rw [rest_scanToken ahead, position] at lastPosition lastTokens lastFaults
    rw [lastPosition, lastTokens, lastFaults, ahead, lexemes, place, ← Position.after_append,
      Lexeme.cut_text, scanToken_eq ahead]
    simp [took, beginLexeme, List.filterMap_eq_flatMap_toList]

end Scanner

end SqlConsole
