import SqlConsole.Scan.Basic

/-! A scanner goes through a text with a cursor and collects tokens and faults on its way. It
looks at most one character beyond the next one and never goes back. It scans once: asked again,
it answers from what it has collected. -/
namespace SqlConsole

structure Scanner where
  input : Array Char
  /-- Where the lexeme begins that is being read. -/
  start : Nat
  /-- How many characters have been taken. -/
  cursor : Nat
  startPosition : Position
  position : Position
  tokens : List Token
  faults : List ScanFault
  finished : Bool

namespace Scanner

variable {s : Scanner} {c : Char}

def new (source : String) : Scanner where
  input := source.toList.toArray
  start := 0
  cursor := 0
  startPosition := .start
  position := .start
  tokens := []
  faults := []
  finished := false

/-! ## The cursor -/

def atEnd (s : Scanner) : Bool := s.input.size ≤ s.cursor

def peek (s : Scanner) : Option Char := s.input[s.cursor]?

/-- The character behind the next one. -/
def peekNext (s : Scanner) : Option Char := s.input[s.cursor + 1]?

/-- Takes the next character. At the end of the text nothing is taken and a null character is
given instead. -/
def advance (s : Scanner) : Char × Scanner :=
  match s.peek with
  | none => ('\x00', s)
  | some c => (c, { s with cursor := s.cursor + 1, position := s.position.advance c })

def skip (s : Scanner) : Scanner := s.advance.2

/-- The scanner behind the next character, if that is the expected one. -/
def take? (s : Scanner) (expected : Char) : Option Scanner :=
  if s.peek = some expected then some s.skip else none

/-- What has been taken of the lexeme so far. -/
def lexeme (s : Scanner) : String := String.ofList (s.input.extract s.start s.cursor).toList

def remaining (s : Scanner) : Nat := s.input.size - s.cursor

theorem skip_of_peek (next : s.peek = some c) :
    s.skip = { s with cursor := s.cursor + 1, position := s.position.advance c } := by
  simp [skip, advance, next]

theorem skip_of_peek_none (none : s.peek = none) : s.skip = s := by
  simp [skip, advance, none]

theorem remaining_skip_lt (next : s.peek = some c) : s.skip.remaining < s.remaining := by
  obtain ⟨inside, -⟩ := Array.getElem?_eq_some_iff.mp next
  simp only [skip_of_peek next, remaining]
  omega

theorem remaining_skip_le (s : Scanner) : s.skip.remaining ≤ s.remaining := by
  cases next : s.peek with
  | none => simp [skip_of_peek_none next]
  | some c => exact Nat.le_of_lt (remaining_skip_lt next)

/-! ## Collecting -/

def addToken (s : Scanner) (token : Token) : Scanner := { s with tokens := s.tokens ++ [token] }

/-- Adds a token without a number, at the place where the lexeme begins. -/
def addText (s : Scanner) (kind : TokenKind) (value : String) : Scanner :=
  s.addToken ⟨kind, value, s.startPosition, none⟩

def addLexeme (s : Scanner) (kind : TokenKind) : Scanner := s.addText kind s.lexeme

@[simp] theorem remaining_addLexeme (s : Scanner) (kind : TokenKind) :
    (s.addLexeme kind).remaining = s.remaining := rfl

def addFault (s : Scanner) (cause : ScanCause) : Scanner :=
  { s with faults := s.faults ++ [⟨cause, s.startPosition⟩] }

/-! ## Readers -/

def skipWhile (p : Char → Bool) (s : Scanner) : Scanner :=
  match _ : s.peek with
  | none => s
  | some c => if p c then s.skip.skipWhile p else s
termination_by s.remaining
decreasing_by exact remaining_skip_lt ‹_›

def readWord (s : Scanner) : Scanner :=
  let s := s.skipWhile isWordPart
  s.addLexeme (wordKind s.lexeme)

/-- Takes a run of digits; a point belongs to it only with a digit behind. -/
def skipNumber (s : Scanner) : Scanner :=
  let s := s.skipWhile isDigit
  if s.peek = some '.' ∧ s.peekNext.any isDigit then s.skip.skipWhile isDigit else s

/-- A text that is no number after all gives a fault and counts as zero. -/
def readNumber (s : Scanner) : Scanner :=
  let s := s.skipNumber
  match Binary64.ofText? s.lexeme with
  | some number => s.addToken ⟨.number, s.lexeme, s.startPosition, some number⟩
  | none =>
    (s.addFault (.invalidNumber s.lexeme)).addToken
      ⟨.number, s.lexeme, s.startPosition, some ⟨0⟩⟩

/-- Takes the body of a string up to its closing mark, or to the end of the text. A backslash
before the mark is passed over and the mark is taken for itself. -/
def readBody (q : Quote) (value : String) (s : Scanner) : String × Scanner :=
  match _ : s.peek with
  | none => (value, s)
  | some c =>
    if c = q.char then (value, s)
    else
      let ahead := if c = '\\' ∧ s.peekNext = some q.char then s.skip else s
      ahead.skip.readBody q (value.push ahead.advance.1)
termination_by s.remaining
decreasing_by
  split
  · exact Nat.lt_of_le_of_lt (remaining_skip_le s.skip) (remaining_skip_lt ‹_›)
  · exact remaining_skip_lt ‹_›

def readString (q : Quote) (s : Scanner) : Scanner :=
  let (value, s) := s.readBody q ""
  if s.atEnd then s.addFault .unterminatedString else s.skip.addText .string value

def skipLineComment (s : Scanner) : Scanner := s.skipWhile (· ≠ '\n')

def skipBlockComment (s : Scanner) : Scanner :=
  match _ : s.peek with
  | none => s.addFault .unterminatedComment
  | some c =>
    if c = '*' ∧ s.peekNext = some '/' then s.skip.skip else s.skip.skipBlockComment
termination_by s.remaining
decreasing_by exact remaining_skip_lt ‹_›

/-- What begins with `c`, which has been taken already and begins neither a comment nor a sign of
two characters. -/
def readOther (c : Char) (s : Scanner) : Scanner :=
  if isBlank c then s
  else if isDigit c then s.readNumber
  else if isWordStart c then s.readWord
  else match Quote.ofChar? c with
    | some q => s.readString q
    | none =>
      match Mark.ofChar? c with
      | some m => s.addLexeme m.kind
      | none => s.addFault (.unexpectedCharacter c)

/-- What begins with `c`, which has been taken already. -/
def readFrom (c : Char) (s : Scanner) : Scanner :=
  match c with
  | '-' =>
    match s.take? '-' with
    | some s => s.skipLineComment
    | none => s.addLexeme (.operator .minus)
  | '/' =>
    match s.take? '*' with
    | some s => s.skipBlockComment
    | none => s.addLexeme (.operator .slash)
  | '<' =>
    match s.take? '=' with
    | some s => s.addLexeme (.operator .lessEqual)
    | none =>
      match s.take? '>' with
      | some s => s.addLexeme (.operator .notEqual)
      | none => s.addLexeme (.operator .lessThan)
  | '>' =>
    match s.take? '=' with
    | some s => s.addLexeme (.operator .greaterEqual)
    | none => s.addLexeme (.operator .greaterThan)
  | '!' =>
    match s.take? '=' with
    | some s => s.addLexeme (.operator .notEqual)
    | none => s.addFault .loneBang
  | c => s.readOther c

def beginLexeme (s : Scanner) : Scanner :=
  { s with start := s.cursor, startPosition := s.position }

/-- Reads one lexeme from where the cursor stands. -/
def scanToken (s : Scanner) : Scanner :=
  let s := s.beginLexeme
  s.skip.readFrom s.advance.1

/-! ## One round of a loop -/

theorem skipWhile_of_peek_none {p : Char → Bool} (none : s.peek = none) : s.skipWhile p = s := by
  rw [skipWhile]
  split
  · rfl
  next c next => rw [none] at next; cases next

theorem skipWhile_of_peek {p : Char → Bool} (next : s.peek = some c) :
    s.skipWhile p = if p c then s.skip.skipWhile p else s := by
  rw [skipWhile]
  split
  next none => rw [none] at next; cases next
  next d found =>
    cases next.symm.trans found
    rfl

theorem readBody_of_peek_none {q : Quote} {value : String} (none : s.peek = none) :
    s.readBody q value = (value, s) := by
  rw [readBody]
  split
  · rfl
  next c next => rw [none] at next; cases next

theorem readBody_of_peek {q : Quote} {value : String} (next : s.peek = some c) :
    s.readBody q value =
      if c = q.char then (value, s)
      else
        let ahead := if c = '\\' ∧ s.peekNext = some q.char then s.skip else s
        ahead.skip.readBody q (value.push ahead.advance.1) := by
  rw [readBody]
  split
  next none => rw [none] at next; cases next
  next d found =>
    cases next.symm.trans found
    rfl

theorem skipBlockComment_of_peek_none (none : s.peek = none) :
    s.skipBlockComment = s.addFault .unterminatedComment := by
  rw [skipBlockComment]
  split
  · rfl
  next c next => rw [none] at next; cases next

theorem skipBlockComment_of_peek (next : s.peek = some c) :
    s.skipBlockComment =
      if c = '*' ∧ s.peekNext = some '/' then s.skip.skip else s.skip.skipBlockComment := by
  rw [skipBlockComment]
  split
  next none => rw [none] at next; cases next
  next d found =>
    cases next.symm.trans found
    rfl

/-! ## Every reader goes on -/

theorem remaining_skipWhile_le (p : Char → Bool) (s : Scanner) :
    (s.skipWhile p).remaining ≤ s.remaining := by
  fun_induction skipWhile p s with
  | case1 => exact Nat.le_refl _
  | case2 s c _ _ ih => exact Nat.le_trans ih s.remaining_skip_le
  | case3 => exact Nat.le_refl _

theorem remaining_skipNumber_le (s : Scanner) : s.skipNumber.remaining ≤ s.remaining := by
  have whole := remaining_skipWhile_le isDigit s
  have point := (s.skipWhile isDigit).remaining_skip_le
  have fraction := remaining_skipWhile_le isDigit (s.skipWhile isDigit).skip
  unfold skipNumber
  dsimp only
  split
  · exact Nat.le_trans fraction (Nat.le_trans point whole)
  · exact whole

theorem remaining_readNumber_le (s : Scanner) : s.readNumber.remaining ≤ s.remaining := by
  have digits := s.remaining_skipNumber_le
  unfold readNumber
  dsimp only
  split <;> exact digits

theorem remaining_readBody_le (q : Quote) (value : String) (s : Scanner) :
    (s.readBody q value).2.remaining ≤ s.remaining := by
  fun_induction readBody q value s with
  | case1 => exact Nat.le_refl _
  | case2 => exact Nat.le_refl _
  | case3 value s c _ _ ahead ih =>
    have behind : ahead.remaining ≤ s.remaining := by
      dsimp only [ahead]
      split
      · exact s.remaining_skip_le
      · exact Nat.le_refl _
    exact Nat.le_trans ih (Nat.le_trans ahead.remaining_skip_le behind)

theorem remaining_readString_le (q : Quote) (s : Scanner) :
    (s.readString q).remaining ≤ s.remaining := by
  have body := remaining_readBody_le q "" s
  unfold readString
  dsimp only
  split
  · exact body
  · exact Nat.le_trans (s.readBody q "").2.remaining_skip_le body

theorem remaining_skipBlockComment_le (s : Scanner) :
    s.skipBlockComment.remaining ≤ s.remaining := by
  fun_induction skipBlockComment s with
  | case1 => exact Nat.le_refl _
  | case2 s => exact Nat.le_trans s.skip.remaining_skip_le s.remaining_skip_le
  | case3 s c _ _ ih => exact Nat.le_trans ih s.remaining_skip_le

theorem remaining_take?_le {t : Scanner} (taken : s.take? c = some t) :
    t.remaining ≤ s.remaining := by
  unfold take? at taken
  split at taken
  · cases taken
    exact s.remaining_skip_le
  · cases taken

theorem remaining_readOther_le (c : Char) (s : Scanner) :
    (s.readOther c).remaining ≤ s.remaining := by
  unfold readOther
  repeat' split
  · exact Nat.le_refl _
  · exact s.remaining_readNumber_le
  · exact s.remaining_skipWhile_le isWordPart
  · exact s.remaining_readString_le _
  · exact Nat.le_refl _
  · exact Nat.le_refl _

theorem remaining_readFrom_le (c : Char) (s : Scanner) :
    (s.readFrom c).remaining ≤ s.remaining := by
  unfold readFrom
  split
  · split
    next t taken => exact Nat.le_trans (t.remaining_skipWhile_le _) (remaining_take?_le taken)
    next => exact Nat.le_refl _
  · split
    next t taken => exact Nat.le_trans t.remaining_skipBlockComment_le (remaining_take?_le taken)
    next => exact Nat.le_refl _
  · split
    next taken => simpa using remaining_take?_le taken
    next =>
      split
      next taken => simpa using remaining_take?_le taken
      next => exact Nat.le_refl _
  · split
    next taken => simpa using remaining_take?_le taken
    next => exact Nat.le_refl _
  · split
    next taken => simpa using remaining_take?_le taken
    next => exact Nat.le_refl _
  · exact s.remaining_readOther_le _

theorem peek_isSome (more : s.atEnd = false) : ∃ c, s.peek = some c := by
  have inside : s.cursor < s.input.size := by simpa [atEnd] using more
  exact ⟨s.input[s.cursor], Array.getElem?_eq_getElem inside⟩

theorem remaining_scanToken_lt (more : s.atEnd = false) : s.scanToken.remaining < s.remaining := by
  obtain ⟨c, next⟩ := peek_isSome more
  exact Nat.lt_of_le_of_lt (remaining_readFrom_le _ _)
    (remaining_skip_lt (s := s.beginLexeme) next)

/-! ## Scanning -/

def scanTokens (s : Scanner) : Scanner :=
  if s.atEnd then s else s.scanToken.scanTokens
termination_by s.remaining
decreasing_by exact remaining_scanToken_lt (eq_false_of_ne_true ‹_›)

/-- The scanner after it has scanned; a second scan changes nothing. -/
def run (s : Scanner) : Scanner :=
  if s.finished then s
  else
    let s := s.scanTokens
    { s.addToken (endToken s.position) with finished := true }

def hasFaults (s : Scanner) : Bool := !s.faults.isEmpty

/-- Scans if need be and gives up the scanner for its output. -/
def finish (s : Scanner) : ScanOutput := ⟨s.run.tokens, s.run.faults⟩

end Scanner

end SqlConsole
