import SqlConsole.Proofs.Scan.Recorder

/-! Safety of the cursor. Whatever the text, a scan keeps its cursor inside of it, asks for a
character only where there is one and goes on in every round of every loop. What it asks for is the
text, character by character, so it comes to an end, after an effort that is linear in the text. -/
namespace SqlConsole

namespace Scanner

variable {s t : Scanner} {c : Char} {text : List Char}

/-- The scanner reads the text, its lexeme begins inside of it and not behind the cursor, and both
places count the characters in front of them. -/
structure Inside (text : List Char) (s : Scanner) : Prop where
  input : s.input = text.toArray
  start : s.start ≤ s.cursor
  cursor : s.cursor ≤ text.length
  startOffset : s.startPosition.offset = s.start
  offset : s.position.offset = s.cursor

/-! ## The scanner -/

theorem inside_new (source : String) : (new source).Inside source.toList :=
  ⟨rfl, Nat.le_refl _, Nat.zero_le _, rfl, rfl⟩

theorem cursor_skip (next : s.peek = some c) : s.skip.cursor = s.cursor + 1 := by
  rw [skip_of_peek next]

theorem peek_skip (next : s.peek = some c) : s.skip.peek = s.peekNext := by
  rw [skip_of_peek next]
  rfl

theorem atEnd_of_peek (next : s.peek = some c) : s.atEnd = false := by
  obtain ⟨bound, -⟩ := Array.getElem?_eq_some_iff.mp next
  simpa [atEnd] using bound

theorem atEnd_scanTokens (s : Scanner) : s.scanTokens.atEnd = true := by
  fun_induction Scanner.scanTokens s with
  | case1 s done => exact done
  | case2 s more ih => exact ih

namespace Inside

theorem getElem?_cursor (inside : s.Inside text) (next : s.peek = some c) :
    text[s.cursor]? = some c := by
  rw [← next, peek, inside.input, List.getElem?_toArray]

theorem skip (inside : s.Inside text) (next : s.peek = some c) : s.skip.Inside text := by
  obtain ⟨bound, -⟩ := List.getElem?_eq_some_iff.mp (inside.getElem?_cursor next)
  rw [skip_of_peek next]
  exact {
    input := inside.input
    start := Nat.le_succ_of_le inside.start
    cursor := bound
    startOffset := inside.startOffset
    offset := by rw [Position.advance_offset, inside.offset] }

theorem beginLexeme (inside : s.Inside text) : s.beginLexeme.Inside text :=
  ⟨inside.input, Nat.le_refl _, inside.cursor, inside.offset, inside.offset⟩

theorem collect (inside : s.Inside text) (tokens : List Token) (faults : List ScanFault) :
    { s with tokens := tokens, faults := faults }.Inside text :=
  ⟨inside.input, inside.start, inside.cursor, inside.startOffset, inside.offset⟩

theorem cursor_of_atEnd (inside : s.Inside text) (done : s.atEnd = true) :
    s.cursor = text.length := by
  rw [atEnd, inside.input] at done
  exact Nat.le_antisymm inside.cursor (of_decide_eq_true done)

/-- With less of the text left the cursor stands further on. -/
theorem cursor_lt (inside : s.Inside text) (behind : t.Inside text)
    (less : t.remaining < s.remaining) : s.cursor < t.cursor := by
  rw [remaining, remaining, inside.input, behind.input] at less
  omega

end Inside

end Scanner

namespace Event

/-- A loop finds the cursor inside of the text, a round brings it on, a character is asked for only
where the text has one, and a lexeme is cut out within the bounds of the input. -/
def Safe (text : List Char) : Event → Prop
  | head _ s => s.Inside text
  | round _ before behind => before.cursor < behind.cursor
  | take s => s.atEnd = false ∧ text[s.cursor]? = some s.advance.1
  | slice s => s.start ≤ s.cursor ∧ s.cursor ≤ s.input.size

/-- What the scanner is given when it advances. -/
def given? : Event → Option Char
  | take s => some s.advance.1
  | _ => none

end Event

namespace Recorder

variable {r : Recorder} {c d : Char} {text : List Char}

/-- All that is recorded is safe, and the characters given are those in front of the cursor. -/
structure Safe (text : List Char) (r : Recorder) : Prop where
  inside : r.scanner.Inside text
  events : ∀ event ∈ r.log, event.Safe text
  given : r.log.filterMap Event.given? = text.take r.scanner.cursor

theorem safe_new (source : String) : (new source).Safe source.toList :=
  ⟨Scanner.inside_new source, nofun, rfl⟩

namespace Safe

/-! ## Every step is safe -/

theorem note {event : Event} (safe : r.Safe text) (fits : event.Safe text)
    (still : event.given? = none) : (r.note event).Safe text where
  inside := safe.inside
  events := List.forall_mem_append.mpr ⟨safe.events, List.forall_mem_singleton.mpr fits⟩
  given := by
    rw [Recorder.note, List.filterMap_append, safe.given, List.filterMap_cons_none still]
    exact List.append_nil _

theorem atHead (safe : r.Safe text) (loop : Loop) : (r.atHead loop).Safe text :=
  safe.note safe.inside rfl

theorem behindRound {before : Scanner} (safe : r.Safe text) (loop : Loop)
    (further : before.cursor < r.scanner.cursor) : (r.behindRound loop before).Safe text :=
  safe.note further rfl

theorem slice (safe : r.Safe text) : r.slice.Safe text := by
  refine safe.note ⟨safe.inside.start, ?_⟩ rfl
  rw [safe.inside.input]
  exact safe.inside.cursor

theorem skip (safe : r.Safe text) (next : r.scanner.peek = some c) : r.skip.Safe text := by
  have here : text[r.scanner.cursor]? = some c := safe.inside.getElem?_cursor next
  have given : r.scanner.advance.1 = c := by rw [Scanner.advance, next]
  have fits : (Event.take r.scanner).Safe text :=
    ⟨Scanner.atEnd_of_peek next, by rw [here, given]⟩
  exact {
    inside := safe.inside.skip next
    events := List.forall_mem_append.mpr ⟨safe.events, List.forall_mem_singleton.mpr fits⟩
    given := by
      have last : [Event.take r.scanner].filterMap Event.given? = [c] :=
        congrArg (fun given => [given]) given
      rw [Recorder.skip, Recorder.note, List.filterMap_append, safe.given, last,
        Scanner.cursor_skip next, List.take_add_one, here]
      rfl }

theorem collect (safe : r.Safe text) (tokens : List Token) (faults : List ScanFault) :
    { r with scanner := { r.scanner with tokens := tokens, faults := faults } }.Safe text :=
  ⟨safe.inside.collect tokens faults, safe.events, safe.given⟩

theorem addLexeme (safe : r.Safe text) (kind : TokenKind) : (r.addLexeme kind).Safe text :=
  safe.slice.collect _ _

theorem addFault (safe : r.Safe text) (cause : ScanCause) : (r.addFault cause).Safe text :=
  safe.collect _ _

theorem round (safe : r.Safe text) (loop : Loop) (next : r.scanner.peek = some c) :
    (r.round loop).Safe text := by
  refine ((safe.atHead loop).skip next).behindRound loop ?_
  rw [scanner_skip, scanner_atHead, Scanner.cursor_skip next]
  exact Nat.lt_add_one _

theorem roundOfTwo (safe : r.Safe text) (loop : Loop) (next : r.scanner.peek = some c)
    (second : r.scanner.peekNext = some d) : (r.roundOfTwo loop).Safe text := by
  -- what was looked at before the first character was taken is what comes next behind it
  have second : r.scanner.skip.peek = some d := (Scanner.peek_skip next).trans second
  refine (((safe.atHead loop).skip next).skip second).behindRound loop ?_
  rw [scanner_skip, scanner_skip, scanner_atHead, Scanner.cursor_skip second,
    Scanner.cursor_skip next]
  omega

/-! ## Every reader is safe -/

theorem skipWhile (safe : r.Safe text) (loop : Loop) (p : Char → Bool) :
    (r.skipWhile loop p).Safe text := by
  fun_induction Recorder.skipWhile loop p r with
  | case1 => exact safe.atHead loop
  | case2 r c next _ ih => exact ih (safe.round loop next)
  | case3 => exact safe.atHead loop

theorem readWord (safe : r.Safe text) : r.readWord.Safe text :=
  (safe.skipWhile .word isWordPart).addLexeme _

theorem skipNumber (safe : r.Safe text) : r.skipNumber.Safe text := by
  have whole := safe.skipWhile .digits isDigit
  unfold Recorder.skipNumber
  dsimp only
  split
  next point => exact (whole.skip point.1).skipWhile .digits isDigit
  next => exact whole

theorem readNumber (safe : r.Safe text) : r.readNumber.Safe text := by
  have digits := safe.skipNumber.slice
  unfold Recorder.readNumber
  dsimp only
  split
  · exact digits.collect _ _
  · exact digits.collect _ _

theorem readBody (safe : r.Safe text) (q : Quote) (value : String) :
    (r.readBody q value).2.Safe text := by
  fun_induction Recorder.readBody q value r with
  | case1 => exact safe.atHead (.body q)
  | case2 => exact safe.atHead (.body q)
  | case3 value r c next _ escaped ih => exact ih (safe.roundOfTwo (.body q) next escaped.2)
  | case4 value r c next _ _ ih => exact ih (safe.round (.body q) next)

theorem readString (safe : r.Safe text) (q : Quote) : (r.readString q).Safe text := by
  have body := safe.readBody q ""
  unfold Recorder.readString
  dsimp only
  split
  next => exact body.addFault .unterminatedString
  next closed =>
    obtain ⟨c, next⟩ := Scanner.peek_isSome (eq_false_of_ne_true closed)
    exact (body.skip next).collect _ _

theorem skipBlockComment (safe : r.Safe text) : r.skipBlockComment.Safe text := by
  fun_induction Recorder.skipBlockComment r with
  | case1 => exact (safe.atHead .blockComment).addFault .unterminatedComment
  | case2 r c next closing => exact safe.roundOfTwo .blockComment next closing.2
  | case3 r c next _ ih => exact ih (safe.round .blockComment next)

theorem readFrom (safe : r.Safe text) (c : Char) : (r.readFrom c).Safe text := by
  apply readFrom_cases
  case blank => exact safe
  case number => exact safe.readNumber
  case word => exact safe.readWord
  case string => exact safe.readString
  case mark => exact safe.addLexeme
  case fault => exact safe.addFault
  case pair => exact fun next => (safe.skip next).addLexeme
  case lineComment => exact fun next => (safe.skip next).skipWhile .lineComment (· ≠ '\n')
  case blockComment => exact fun next => (safe.skip next).skipBlockComment

theorem scanToken (safe : r.Safe text) (more : r.scanner.atEnd = false) :
    r.scanToken.Safe text := by
  obtain ⟨c, next⟩ := Scanner.peek_isSome more
  have begun : r.beginLexeme.Safe text := ⟨safe.inside.beginLexeme, safe.events, safe.given⟩
  exact (begun.skip next).readFrom _

theorem scanTokens (safe : r.Safe text) : r.scanTokens.Safe text := by
  fun_induction Recorder.scanTokens r with
  | case1 => exact safe.atHead .lexemes
  | case2 r here more ih =>
    have more := eq_false_of_ne_true more
    -- the round is noted behind the reading, so the progress is that of the scanner itself
    have read : here.scanToken.Safe text := (safe.atHead .lexemes).scanToken more
    refine ih (read.behindRound .lexemes (safe.inside.cursor_lt read.inside ?_))
    rw [scanner_scanToken]
    exact Scanner.remaining_scanToken_lt more

end Safe

/-! ## The effort

A round over one character has three events: the head, the character and the round itself. So a
reader exceeds three events for each character only by the head at which its loop ends and by the
lexeme that it cuts out. -/

/-- By how many events the log exceeds three for each character in front of the cursor. -/
def excess (r : Recorder) : Int := r.log.length - 3 * r.scanner.cursor

theorem excess_note (r : Recorder) (event : Event) : (r.note event).excess = r.excess + 1 := by
  simp only [excess, note, List.length_append, List.length_singleton]
  omega

theorem excess_atHead (r : Recorder) (loop : Loop) : (r.atHead loop).excess = r.excess + 1 :=
  r.excess_note _

theorem excess_behindRound (r : Recorder) (loop : Loop) (before : Scanner) :
    (r.behindRound loop before).excess = r.excess + 1 :=
  r.excess_note _

theorem excess_addLexeme (r : Recorder) (kind : TokenKind) :
    (r.addLexeme kind).excess = r.excess + 1 :=
  r.excess_note _

theorem excess_skip (next : r.scanner.peek = some c) : r.skip.excess = r.excess - 2 := by
  simp only [excess, skip, note, Scanner.cursor_skip next, List.length_append,
    List.length_singleton]
  omega

theorem excess_round (loop : Loop) (next : r.scanner.peek = some c) :
    (r.round loop).excess = r.excess := by
  rw [round, excess_behindRound, excess_skip (r := r.atHead loop) next, excess_atHead]
  omega

theorem excess_roundOfTwo (loop : Loop) (next : r.scanner.peek = some c)
    (second : r.scanner.peekNext = some d) : (r.roundOfTwo loop).excess = r.excess - 2 := by
  have second : r.scanner.skip.peek = some d := (Scanner.peek_skip next).trans second
  rw [roundOfTwo, excess_behindRound, excess_skip (r := (r.atHead loop).skip) second,
    excess_skip (r := r.atHead loop) next, excess_atHead]
  omega

theorem excess_skipWhile (loop : Loop) (p : Char → Bool) (r : Recorder) :
    (r.skipWhile loop p).excess = r.excess + 1 := by
  fun_induction skipWhile loop p r with
  | case1 r => exact r.excess_atHead loop
  | case2 r c next _ ih => rw [ih, excess_round loop next]
  | case3 r => exact r.excess_atHead loop

theorem excess_skipNumber_le (r : Recorder) : r.skipNumber.excess ≤ r.excess + 1 := by
  have whole := r.excess_skipWhile .digits isDigit
  unfold skipNumber
  dsimp only
  split
  next point =>
    rw [excess_skipWhile, excess_skip point.1]
    omega
  next => exact Int.le_of_eq whole

theorem excess_readNumber_le (r : Recorder) : r.readNumber.excess ≤ r.excess + 2 := by
  have digits := r.excess_skipNumber_le
  have number : r.readNumber.excess = r.skipNumber.slice.excess := by
    unfold readNumber
    dsimp only
    split <;> rfl
  rw [number, slice, excess_note]
  omega

theorem excess_readBody_le (q : Quote) (value : String) (r : Recorder) :
    (r.readBody q value).2.excess ≤ r.excess + 1 := by
  fun_induction readBody q value r with
  | case1 _ r => exact Int.le_of_eq (r.excess_atHead _)
  | case2 _ r => exact Int.le_of_eq (r.excess_atHead _)
  | case3 value r c next _ escaped ih =>
    rw [excess_roundOfTwo _ next escaped.2] at ih
    omega
  | case4 value r c next _ _ ih =>
    rwa [excess_round _ next] at ih

theorem excess_readString_le (q : Quote) (r : Recorder) :
    (r.readString q).excess ≤ r.excess + 1 := by
  have body := r.excess_readBody_le q ""
  unfold readString
  dsimp only
  split
  next => exact body
  next closed =>
    obtain ⟨c, next⟩ := Scanner.peek_isSome (eq_false_of_ne_true closed)
    have mark := excess_skip next
    change (r.readBody q "").2.skip.excess ≤ _
    omega

theorem excess_skipBlockComment_le (r : Recorder) :
    r.skipBlockComment.excess ≤ r.excess + 1 := by
  fun_induction skipBlockComment r with
  | case1 r => exact Int.le_of_eq (r.excess_atHead _)
  | case2 r c next closing =>
    rw [excess_roundOfTwo _ next closing.2]
    omega
  | case3 r c next _ ih =>
    rwa [excess_round _ next] at ih

theorem excess_readFrom_le (c : Char) (r : Recorder) : (r.readFrom c).excess ≤ r.excess + 2 := by
  apply readFrom_cases (P := fun t => t.excess ≤ r.excess + 2)
  case blank => omega
  case number => exact r.excess_readNumber_le
  case word =>
    rw [readWord, excess_addLexeme, excess_skipWhile]
    omega
  case string =>
    intro q
    have string := r.excess_readString_le q
    omega
  case mark =>
    intro kind
    rw [excess_addLexeme]
    omega
  case fault =>
    intro cause
    change r.excess ≤ r.excess + 2
    omega
  case pair =>
    intro d next kind
    rw [excess_addLexeme, excess_skip next]
    omega
  case lineComment =>
    intro next
    rw [skipLineComment, excess_skipWhile, excess_skip next]
    omega
  case blockComment =>
    intro next
    have comment := r.skip.excess_skipBlockComment_le
    rw [excess_skip next] at comment
    omega

theorem excess_scanToken_le (more : r.scanner.atEnd = false) : r.scanToken.excess ≤ r.excess := by
  obtain ⟨c, next⟩ := Scanner.peek_isSome more
  have first : r.beginLexeme.skip.excess = r.excess - 2 := excess_skip (r := r.beginLexeme) next
  have read := r.beginLexeme.skip.excess_readFrom_le r.beginLexeme.scanner.advance.1
  change (r.beginLexeme.skip.readFrom _).excess ≤ _
  omega

/-- A round of the scan has two events of its own, and at least one character less is left. -/
theorem excess_scanTokens_le (r : Recorder) :
    r.scanTokens.excess ≤ r.excess + 2 * r.scanner.remaining + 1 := by
  fun_induction scanTokens r with
  | case1 r here =>
    have head : here.excess = r.excess + 1 := r.excess_atHead .lexemes
    omega
  | case2 r here more ih =>
    have more := eq_false_of_ne_true more
    have less := Scanner.remaining_scanToken_lt more
    have head : here.excess = r.excess + 1 := r.excess_atHead .lexemes
    have read := excess_scanToken_le (r := here) more
    rw [excess_behindRound, scanner_behindRound, scanner_scanToken, scanner_atHead] at ih
    omega

end Recorder

/-- In every scan, as its recording shows: whenever a loop stands at its head, be it that of the
lexemes or that of a reader, the cursor is inside of the text and not in front of the lexeme, and
both places have the right offsets. Each round of each loop brings the cursor on. A character is
asked for only where there is one, so the null character is never given for want of another, and
what is given in all is the text. Lexemes are cut out within the bounds of the input. And the scan
ends, after five events for each character and one more at most. -/
theorem scan_cursor_safe (source : String) :
    (Recorder.new source).scanTokens.scanner = (Scanner.new source).scanTokens ∧
    (∀ event ∈ (Recorder.new source).scanTokens.log, event.Safe source.toList) ∧
    (Recorder.new source).scanTokens.log.filterMap Event.given? = source.toList ∧
    (Recorder.new source).scanTokens.log.length ≤ 5 * source.length + 1 := by
  have scanner := (Recorder.new source).scanner_scanTokens
  have safe := (Recorder.safe_new source).scanTokens
  have done := (Recorder.new source).scanner.atEnd_scanTokens
  have last : (Recorder.new source).scanTokens.scanner.cursor = source.toList.length :=
    safe.inside.cursor_of_atEnd (by rw [scanner]; exact done)
  have given := safe.given
  rw [last, List.take_length] at given
  have effort := (Recorder.new source).excess_scanTokens_le
  have before : (Recorder.new source).excess = 0 := rfl
  have ahead : (Recorder.new source).scanner.remaining = source.toList.length := rfl
  rw [before, ahead, Recorder.excess, last, String.length_toList] at effort
  exact ⟨scanner, safe.events, given, by omega⟩

/-- A word of one letter takes as many events as there may be. -/
example : (Recorder.new "a").scanTokens.log.length = 5 * "a".length + 1 := by cbv

end SqlConsole
