import Mathlib.Tactic.FinCases
import SqlConsole.Proofs.Lexeme.Body
import SqlConsole.Proofs.Token.Keyword

/-! Cutting takes the longest reading. What `cut` takes off can be read as a lexeme, and any
other reading of the same text is shorter or yields the same. -/
namespace SqlConsole

/-- The kind of a word: the keyword with its capitals, if there is one. -/
theorem wordKind_cases (word : String) :
    (∃ k : Keyword, capitals word = k.name ∧ wordKind word = .keyword k) ∨
    ((∀ k : Keyword, capitals word ≠ k.name) ∧ wordKind word = .identifier) := by
  unfold wordKind
  cases found : Keyword.ofWord? word with
  | some k => exact .inl ⟨k, Keyword.ofWord?_eq_some_iff.mp found, rfl⟩
  | none =>
    refine .inr ⟨fun k same => ?_, rfl⟩
    rw [Keyword.ofWord?_eq_some_iff.mpr same] at found
    cases found

theorem wordKind_of_capitals {word : String} {k : Keyword} (same : capitals word = k.name) :
    wordKind word = .keyword k := by
  rcases wordKind_cases word with ⟨l, found, kind⟩ | ⟨none, _⟩
  · rw [kind, Keyword.name_injective (found.symm.trans same)]
  · exact absurd same (none k)

theorem wordKind_of_no_keyword {word : String} (none : ∀ k : Keyword, capitals word ≠ k.name) :
    wordKind word = .identifier := by
  rcases wordKind_cases word with ⟨l, found, _⟩ | ⟨_, kind⟩
  · exact absurd found (none l)
  · exact kind

theorem Mark.mem_signs (m : Mark) : (m.text, m.kind) ∈ signs := by
  rcases m with ⟨_ | _⟩ | ⟨_ | _⟩ | _ <;> decide

/-- The characters named in `openers` are those that the other classes begin with. -/
theorem openers_classes : ∀ c ∈ openers, isBlank c = true ∨ Quote.ofChar? c ≠ none ∨
    Mark.ofChar? c ≠ none ∨ c = '!' := by
  intro c member
  fin_cases member <;> decide

namespace Lexeme

/-- What a lexeme gives, its place apart. -/
def yield : Lexeme → Yield
  | blank _ | lineComment _ | blockComment _ => .nothing
  | openComment _ => .fault .unterminatedComment
  | quoted q body => .token .string (q.unescape body) none
  | openQuote _ _ => .fault .unterminatedString
  | whole digits => .token .number digits (some (Binary64.ofNumeral digits []))
  | decimal first second =>
    .token .number (first ++ '.' :: second) (some (Binary64.ofNumeral first second))
  | word letters => .token (wordKind (String.ofList letters)) letters none
  | mark m => .token m.kind m.text none
  | stray c => .fault (if c = '!' then .loneBang else .unexpectedCharacter c)

theorem token?_eq (p : Position) (l : Lexeme) : Placed.token? ⟨p, l⟩ = l.yield.token? p := by
  cases l <;> rfl

theorem fault?_eq (p : Position) (l : Lexeme) : Placed.fault? ⟨p, l⟩ = l.yield.fault? p := by
  cases l <;> rfl

/-! ## What is taken off is a lexeme -/

theorem digits_takeWhile {c : Char} (digit : isDigit c = true) (text : List Char) :
    Digits ((c :: text).takeWhile isDigit) := by
  refine ⟨by simp [digit], fun d member => ?_⟩
  exact List.mem_takeWhile_imp member

theorem cutNumber_reading {c : Char} (digit : isDigit c = true) (rest : List Char) :
    Reading (cutNumber (c :: rest)).1.text (cutNumber (c :: rest)).2
      (cutNumber (c :: rest)).1.yield := by
  have first := digits_takeWhile digit rest
  unfold cutNumber
  split
  next d after _ =>
    split
    next second =>
      have behind := digits_takeWhile second after
      rw [List.takeWhile_cons_of_pos second] at behind
      exact .decimal first behind
    next => exact .whole first
  next => exact .whole first

theorem isWordPart_of_isWordStart {c : Char} (start : isWordStart c = true) :
    isWordPart c = true := by
  simp only [isWordStart, isWordPart, Bool.or_eq_true] at start ⊢
  rcases start with letter | underscore
  · exact .inl (.inl letter)
  · exact .inr underscore

theorem cutWord_reading {c : Char} (start : isWordStart c = true) (rest : List Char) :
    Reading (cutWord (c :: rest)).1.text (cutWord (c :: rest)).2
      (cutWord (c :: rest)).1.yield := by
  have part := isWordPart_of_isWordStart start
  have parts : ∀ d ∈ rest.takeWhile isWordPart, isWordPart d = true :=
    fun d member => List.mem_takeWhile_imp member
  simp only [cutWord, text, yield, List.takeWhile_cons_of_pos part]
  rcases wordKind_cases (String.ofList (c :: rest.takeWhile isWordPart)) with
    ⟨k, same, kind⟩ | ⟨none, kind⟩
  · rw [kind]
    exact .keyword start parts same
  · rw [kind]
    exact .identifier start parts none

theorem cutQuoted_reading (q : Quote) (rest : List Char) :
    Reading (cutQuoted q rest).1.text (cutQuoted q rest).2 (cutQuoted q rest).1.yield := by
  unfold cutQuoted
  split
  next body after found =>
    obtain ⟨inside, last⟩ := noClosingMark_of_quotedBody found
    exact .quoted inside last (q.escape_unescape inside)
  next none => exact .openQuote (quotedBody_eq_none_iff.mp none)

theorem cutComment_reading (rest : List Char) :
    Reading (cutComment rest).1.text (cutComment rest).2 (cutComment rest).1.yield := by
  unfold cutComment
  split
  next body after found => exact .blockComment (noCommentEnd_of_commentBody found)
  next none => exact .openComment (commentBody_eq_none_iff.mp none)

theorem mark_reading (m : Mark) (rest : List Char) :
    Reading (mark m).text rest (mark m).yield := .sign m.mem_signs

theorem cutMark_reading {c : Char} (blank : isBlank c = false) (digit : isDigit c = false)
    (start : isWordStart c = false) (quote : Quote.ofChar? c = none) (rest : List Char) :
    Reading (cutMark c rest).1.text (cutMark c rest).2 (cutMark c rest).1.yield := by
  unfold cutMark
  split
  · refine .lineComment fun newline => ?_
    simpa using List.mem_takeWhile_imp newline
  · exact cutComment_reading _
  · exact mark_reading (.operator .lessEqual) _
  · exact mark_reading .angles _
  · exact mark_reading (.operator .greaterEqual) _
  · exact mark_reading (.operator .notEqual) _
  · split
    next m _ => exact mark_reading m _
    next none =>
      by_cases bang : c = '!'
      · subst bang; exact .bang
      · have plain : c ∉ openers := by
          intro member
          rcases openers_classes c member with h | h | h | h
          · rw [blank] at h; cases h
          · exact h quote
          · exact h none
          · exact bang h
        have other : Reading [c] rest _ := .other plain digit start
        simpa [yield, text, bang] using other

theorem cut_reading (c : Char) (rest : List Char) :
    Reading (cut c rest).1.text (cut c rest).2 (cut c rest).1.yield := by
  unfold cut
  split
  next blank =>
    refine .blank ?_
    simpa [isBlank, or_assoc] using blank
  next blank =>
    split
    next digit => exact cutNumber_reading digit rest
    next digit =>
      split
      next start => exact cutWord_reading start rest
      next start =>
        split
        next q _ => exact cutQuoted_reading q rest
        next quote =>
          exact cutMark_reading (by simpa using blank) (by simpa using digit)
            (by simpa using start) quote rest

/-! ## No reading goes beyond what is taken off -/

/-- The text is shorter than the lexeme, or it is the lexeme's own and yields the same. -/
def Covers (l : Lexeme) (text : List Char) (y : Yield) : Prop :=
  text.length < l.text.length ∨ (text = l.text ∧ y = l.yield)

theorem covers_of_append {l : Lexeme} {text : List Char} {y : Yield} (extra : List Char)
    (longer : l.text = text ++ extra) (same : extra = [] → y = l.yield) : l.Covers text y := by
  cases extra with
  | nil => exact .inr ⟨by simpa using longer.symm, same rfl⟩
  | cons c extra => exact .inl (by simp [longer])

theorem isBlank_of_isWordStart {c : Char} (start : isWordStart c = true) : isBlank c = false := by
  rw [Bool.eq_false_iff]
  intro blank
  simp only [isBlank, Bool.or_eq_true, decide_eq_true_eq] at blank
  rcases blank with ((rfl | rfl) | rfl) | rfl <;> revert start <;> decide

theorem isDigit_of_isWordStart {c : Char} (start : isWordStart c = true) : isDigit c = false := by
  rw [Bool.eq_false_iff]
  intro digit
  simp only [isDigit, isWordStart, isLetter, Bool.and_eq_true, Bool.or_eq_true, decide_eq_true_eq,
    Char.le_def, UInt32.le_iff_toNat_le] at digit start
  rcases start with (small | large) | rfl
  · have lower : 97 ≤ c.val.toNat := small.1
    have upper : c.val.toNat ≤ 57 := digit.2
    omega
  · have lower : 65 ≤ c.val.toNat := large.1
    have upper : c.val.toNat ≤ 57 := digit.2
    omega
  · revert digit
    decide

theorem isBlank_of_isDigit {c : Char} (digit : isDigit c = true) : isBlank c = false := by
  rw [Bool.eq_false_iff]
  intro blank
  simp only [isBlank, Bool.or_eq_true, decide_eq_true_eq] at blank
  rcases blank with ((rfl | rfl) | rfl) | rfl <;> revert digit <;> decide

theorem cut_digit {c : Char} (digit : isDigit c = true) (rest : List Char) :
    cut c rest = cutNumber (c :: rest) := by
  simp [cut, digit, isBlank_of_isDigit digit]

theorem cut_wordStart {c : Char} (start : isWordStart c = true) (rest : List Char) :
    cut c rest = cutWord (c :: rest) := by
  simp [cut, start, isBlank_of_isWordStart start, isDigit_of_isWordStart start]

theorem cut_quote (q : Quote) (rest : List Char) : cut q.char rest = cutQuoted q rest := by
  cases q <;> rfl

theorem cut_mark {c : Char} {m : Mark} (alone : Mark.ofChar? c = some m) (rest : List Char) :
    cut c rest = cutMark c rest := by
  unfold Mark.ofChar? at alone
  split at alone <;> first | rfl | cases alone

/-- Only a longer spelling keeps a character from being a mark of its own. -/
theorem cutMark_alone {c : Char} {m : Mark} (alone : Mark.ofChar? c = some m)
    (rest : List Char) : (cutMark c rest).1.Covers m.text (mark m).yield := by
  rw [Covers, Mark.text_of_ofChar? alone]
  unfold cutMark
  split
  · exact .inl (by simp [text])
  · exact .inl (by unfold cutComment; split <;> simp [text])
  · exact .inl (show 1 < (Mark.text (.operator .lessEqual)).length by decide)
  · exact .inl (show 1 < (Mark.text .angles).length by decide)
  · exact .inl (show 1 < (Mark.text (.operator .greaterEqual)).length by decide)
  · exact .inl (show 1 < (Mark.text (.operator .notEqual)).length by decide)
  · rw [alone]
    exact .inr ⟨(Mark.text_of_ofChar? alone).symm, rfl⟩

theorem cutMark_other {c : Char} (plain : c ∉ openers) (rest : List Char) :
    cutMark c rest = (.stray c, rest) := by
  have alone : Mark.ofChar? c = none := by
    unfold Mark.ofChar?
    split <;> first | rfl | exact absurd (by decide) plain
  unfold cutMark
  split
  case h_7 => rw [alone]
  all_goals exact absurd (by decide) plain

theorem cutNumber_covers_whole {digits : List Char} (valid : Digits digits) (rest : List Char) :
    (cutNumber (digits ++ rest)).1.Covers digits (whole digits).yield := by
  have run : (digits ++ rest).takeWhile isDigit = digits ++ rest.takeWhile isDigit :=
    List.takeWhile_append_of_pos valid.2
  have alone : (whole ((digits ++ rest).takeWhile isDigit)).Covers digits (whole digits).yield :=
    covers_of_append (rest.takeWhile isDigit) run fun none => by rw [run, none, List.append_nil]
  unfold cutNumber
  split
  next d after _ =>
    split
    · refine .inl ?_
      simp only [text, run, List.length_append, List.length_cons]
      omega
    · exact alone
  next => exact alone

theorem cutNumber_covers_decimal {first second : List Char} (valid : Digits first)
    (behind : Digits second) (rest : List Char) :
    (cutNumber (first ++ '.' :: second ++ rest)).1.Covers (first ++ '.' :: second)
      (decimal first second).yield := by
  obtain ⟨d, second, rfl⟩ := List.exists_cons_of_ne_nil behind.1
  have digit : isDigit d = true := behind.2 d List.mem_cons_self
  have digits : ∀ c ∈ second, isDigit c = true := fun c member =>
    behind.2 c (List.mem_cons_of_mem _ member)
  have run : (first ++ '.' :: d :: (second ++ rest)).takeWhile isDigit = first := by
    rw [List.takeWhile_append_of_pos valid.2]
    simp [show isDigit '.' = false from rfl]
  have left : (first ++ '.' :: d :: (second ++ rest)).dropWhile isDigit =
      '.' :: d :: (second ++ rest) := by
    rw [List.dropWhile_append_of_pos valid.2]
    simp [show isDigit '.' = false from rfl]
  have cut : (cutNumber (first ++ '.' :: (d :: second) ++ rest)).1 =
      .decimal first (d :: (second ++ rest.takeWhile isDigit)) := by
    simp only [List.append_assoc, List.cons_append, cutNumber, run, left, digit, if_true,
      List.takeWhile_append_of_pos digits]
  rw [cut]
  refine covers_of_append (rest.takeWhile isDigit) (by simp [text]) fun none => ?_
  rw [none, List.append_nil]

theorem cutWord_covers {c : Char} {letters : List Char} {kind : TokenKind}
    (start : isWordStart c = true) (parts : ∀ d ∈ letters, isWordPart d = true)
    (same : wordKind (String.ofList (c :: letters)) = kind) (rest : List Char) :
    (cutWord (c :: (letters ++ rest))).1.Covers (c :: letters)
      (.token kind (c :: letters) none) := by
  have part := isWordPart_of_isWordStart start
  have run : (c :: (letters ++ rest)).takeWhile isWordPart =
      c :: letters ++ rest.takeWhile isWordPart := by
    rw [List.takeWhile_cons_of_pos part, List.takeWhile_append_of_pos parts, List.cons_append]
  refine covers_of_append (rest.takeWhile isWordPart) run fun none => ?_
  simp only [cutWord, run, none, List.append_nil, yield, same]

theorem cutComment_closed {body : List Char} (inside : NoCommentEnd (body ++ ['*']))
    (rest : List Char) : cutComment (body ++ '*' :: '/' :: rest) = (.blockComment body, rest) := by
  rw [cutComment, commentBody_of_noCommentEnd inside]

theorem cutComment_open {body : List Char} (inside : NoCommentEnd body) :
    cutComment body = (.openComment body, []) := by
  rw [cutComment, commentBody_eq_none_iff.mpr inside]

theorem cutQuoted_closed {q : Quote} {body : List Char} (inside : NoClosingMark q body)
    (last : body.getLast? ≠ some '\\') (rest : List Char) :
    cutQuoted q (body ++ q.char :: rest) = (.quoted q body, rest) := by
  rw [cutQuoted, quotedBody_of_noClosingMark inside last]

theorem cutQuoted_open {q : Quote} {body : List Char} (inside : NoClosingMark q body) :
    cutQuoted q body = (.openQuote q body, []) := by
  rw [cutQuoted, quotedBody_eq_none_iff.mpr inside]

theorem cut_dashes (rest : List Char) : cut '-' ('-' :: rest) =
    (.lineComment (rest.takeWhile (· ≠ '\n')), rest.dropWhile (· ≠ '\n')) := rfl

theorem cut_slashStar (rest : List Char) : cut '/' ('*' :: rest) = cutComment rest := rfl

theorem cut_dashes_covers {body : List Char} (single : '\n' ∉ body) (rest : List Char) :
    (cut '-' ('-' :: (body ++ rest))).1.Covers ('-' :: '-' :: body) .nothing := by
  have all : ∀ c ∈ body, (decide (c ≠ '\n')) = true := fun c member =>
    decide_eq_true fun eq => single (eq ▸ member)
  rw [cut_dashes, List.takeWhile_append_of_pos all]
  exact covers_of_append (rest.takeWhile (· ≠ '\n')) rfl fun _ => rfl

theorem cut_sign_covers {text : List Char} {kind : TokenKind} (member : (text, kind) ∈ signs)
    {c : Char} {rest more : List Char} (split : text ++ rest = c :: more) :
    (cut c more).1.Covers text (.token kind text none) := by
  have one {c : Char} (m : Mark) (alone : Mark.ofChar? c = some m) :
      (cut c rest).1.Covers m.text (mark m).yield := by
    rw [cut_mark alone]
    exact cutMark_alone alone rest
  simp only [signs, List.mem_cons, List.not_mem_nil, or_false, Prod.mk.injEq] at member
  rcases member with ⟨rfl, rfl⟩ | ⟨rfl, rfl⟩ | ⟨rfl, rfl⟩ | ⟨rfl, rfl⟩ | ⟨rfl, rfl⟩ |
    ⟨rfl, rfl⟩ | ⟨rfl, rfl⟩ | ⟨rfl, rfl⟩ | ⟨rfl, rfl⟩ | ⟨rfl, rfl⟩ | ⟨rfl, rfl⟩ |
    ⟨rfl, rfl⟩ | ⟨rfl, rfl⟩ | ⟨rfl, rfl⟩ | ⟨rfl, rfl⟩ | ⟨rfl, rfl⟩ | ⟨rfl, rfl⟩ <;> cases split
  · exact one (.delimiter .leftParen) rfl
  · exact one (.delimiter .rightParen) rfl
  · exact one (.delimiter .comma) rfl
  · exact one (.delimiter .semicolon) rfl
  · exact one (.delimiter .dot) rfl
  · exact one (.operator .plus) rfl
  · exact one (.operator .minus) rfl
  · exact one (.operator .star) rfl
  · exact one (.operator .slash) rfl
  · exact one (.operator .percent) rfl
  · exact one (.operator .equal) rfl
  · exact one (.operator .lessThan) rfl
  · exact .inr ⟨rfl, rfl⟩
  · exact .inr ⟨rfl, rfl⟩
  · exact one (.operator .greaterThan) rfl
  · exact .inr ⟨rfl, rfl⟩
  · exact .inr ⟨rfl, rfl⟩

theorem cut_bang_covers (rest : List Char) :
    (cut '!' rest).1.Covers ['!'] (.fault .loneBang) := by
  by_cases unequal : rest.head? = some '='
  · obtain ⟨after, rfl⟩ := List.head?_eq_some_iff.mp unequal
    exact .inl (show 1 < (Mark.text (.operator .notEqual)).length by decide)
  · have lone : cut '!' rest = (.stray '!', rest) := by
      change cutMark '!' rest = _
      unfold cutMark
      split <;> simp_all [Mark.ofChar?]
    rw [lone]
    exact .inr ⟨rfl, rfl⟩

theorem cut_other {c : Char} (plain : c ∉ openers) (digit : isDigit c = false)
    (start : isWordStart c = false) (rest : List Char) : cut c rest = (.stray c, rest) := by
  have blank : isBlank c = false := by
    rw [Bool.eq_false_iff]
    intro blank
    simp only [isBlank, Bool.or_eq_true, decide_eq_true_eq] at blank
    rcases blank with ((rfl | rfl) | rfl) | rfl <;> exact plain (by decide)
  have quote : Quote.ofChar? c = none := by
    unfold Quote.ofChar?
    split
    next single => exact absurd (single ▸ by decide) plain
    next =>
      split
      next double => exact absurd (double ▸ by decide) plain
      next => rfl
  simp [cut, blank, digit, start, quote, cutMark_other plain]

/-- Whatever can be read at the front of a text, cutting takes that or more. -/
theorem cut_covers {text rest more : List Char} {c : Char} {y : Yield}
    (reading : Reading text rest y) (split : text ++ rest = c :: more) :
    (cut c more).1.Covers text y := by
  cases reading with
  | blank blank =>
    cases split
    have blank : isBlank c = true := by simpa [isBlank, or_assoc] using blank
    exact .inr (by simp [cut, blank, Lexeme.text, yield])
  | lineComment single =>
    cases split
    exact cut_dashes_covers single rest
  | @blockComment body _ inside =>
    obtain ⟨rfl, rfl⟩ : c = '/' ∧ more = '*' :: (body ++ '*' :: '/' :: rest) := by
      simpa [eq_comm] using split
    rw [cut_slashStar, cutComment_closed inside]
    exact .inr ⟨rfl, rfl⟩
  | openComment inside =>
    rw [List.append_nil] at split
    cases split
    rw [cut_slashStar, cutComment_open inside]
    exact .inr ⟨rfl, rfl⟩
  | @quoted q body value _ inside last escaped =>
    obtain ⟨rfl, rfl⟩ : c = q.char ∧ more = body ++ q.char :: rest := by
      simpa [eq_comm] using split
    rw [cut_quote, cutQuoted_closed inside last, ← escaped]
    exact .inr ⟨rfl, by rw [yield, Quote.unescape_escape]⟩
  | openQuote inside =>
    rw [List.append_nil] at split
    cases split
    rw [cut_quote, cutQuoted_open inside]
    exact .inr ⟨rfl, rfl⟩
  | whole valid =>
    obtain ⟨d, digits, rfl⟩ := List.exists_cons_of_ne_nil valid.1
    cases split
    rw [cut_digit (valid.2 _ List.mem_cons_self)]
    exact cutNumber_covers_whole valid rest
  | @decimal first second _ valid behind =>
    obtain ⟨d, digits, rfl⟩ := List.exists_cons_of_ne_nil valid.1
    cases split
    rw [cut_digit (valid.2 _ List.mem_cons_self)]
    exact cutNumber_covers_decimal valid behind rest
  | keyword start parts same =>
    cases split
    rw [cut_wordStart start]
    exact cutWord_covers start parts (wordKind_of_capitals same) rest
  | identifier start parts none =>
    cases split
    rw [cut_wordStart start]
    exact cutWord_covers start parts (wordKind_of_no_keyword none) rest
  | sign member => exact cut_sign_covers member split
  | bang =>
    cases split
    exact cut_bang_covers rest
  | other plain digit start =>
    cases split
    rw [cut_other plain digit start]
    have : c ≠ '!' := fun eq => plain (eq ▸ by decide)
    exact .inr ⟨rfl, by simp [yield, this]⟩

theorem cut_longestReading (c : Char) (rest : List Char) :
    LongestReading (cut c rest).1.text (cut c rest).2 (cut c rest).1.yield where
  reading := cut_reading c rest
  longest other left z split reading := by
    rw [cut_text] at split
    rcases cut_covers reading split with shorter | ⟨same, _⟩
    · exact shorter.le
    · rw [same]

/-- The longest reading is what is taken off, in its text, its rest and its yield. -/
theorem eq_cut_of_longestReading {text rest more : List Char} {c : Char} {y : Yield}
    (longest : LongestReading text rest y) (split : text ++ rest = c :: more) :
    text = (cut c more).1.text ∧ rest = (cut c more).2 ∧ y = (cut c more).1.yield := by
  rcases cut_covers longest.reading split with shorter | ⟨same, yields⟩
  · have bound := longest.longest _ _ _ ((cut_text c more).trans split.symm) (cut_reading c more)
    omega
  · refine ⟨same, ?_, yields⟩
    rw [same] at split
    exact List.append_cancel_left (split.trans (cut_text c more).symm)

/-- The star that opens a comment does not close it. -/
example : cut '/' ['*', '/', '*', '/', '/'] = (.blockComment ['/'], ['/']) := rfl

end Lexeme

end SqlConsole
