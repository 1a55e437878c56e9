import SqlConsole.Scan.Scanner

/-! Recording a scanner. A recorder reads as its scanner does and keeps a log of it: the states in
which a loop stands at its head, the rounds of the loops, the characters asked for and the lexemes
cut out of the input. Without the log it is the scanner. -/
namespace SqlConsole

/-- The loops of a scanner. -/
inductive Loop where
  /-- Reads a lexeme in each round. -/
  | lexemes
  | word
  | digits
  | body (q : Quote)
  | lineComment
  | blockComment

/-- What a scanner does, and its state at this moment. -/
inductive Event where
  /-- A loop decides whether to go round. -/
  | head (loop : Loop) (s : Scanner)
  /-- A loop has gone round. -/
  | round (loop : Loop) (before behind : Scanner)
  /-- The scanner advances. -/
  | take (s : Scanner)
  /-- The lexeme is cut out of the input. -/
  | slice (s : Scanner)

structure Recorder where
  scanner : Scanner
  log : List Event

namespace Recorder

def new (source : String) : Recorder := ⟨.new source, []⟩

def note (r : Recorder) (event : Event) : Recorder := { r with log := r.log ++ [event] }

def atHead (r : Recorder) (loop : Loop) : Recorder := r.note (.head loop r.scanner)

def behindRound (r : Recorder) (loop : Loop) (before : Scanner) : Recorder :=
  r.note (.round loop before r.scanner)

/-! ## The readers, recorded -/

def skip (r : Recorder) : Recorder := { r.note (.take r.scanner) with scanner := r.scanner.skip }

def take? (r : Recorder) (expected : Char) : Option Recorder :=
  if r.scanner.peek = some expected then some r.skip else none

def addToken (r : Recorder) (token : Token) : Recorder :=
  { r with scanner := r.scanner.addToken token }

def addText (r : Recorder) (kind : TokenKind) (value : String) : Recorder :=
  { r with scanner := r.scanner.addText kind value }

def addFault (r : Recorder) (cause : ScanCause) : Recorder :=
  { r with scanner := r.scanner.addFault cause }

def slice (r : Recorder) : Recorder := r.note (.slice r.scanner)

def addLexeme (r : Recorder) (kind : TokenKind) : Recorder :=
  r.slice.addText kind r.scanner.lexeme

/-- A round over one character. -/
def round (r : Recorder) (loop : Loop) : Recorder :=
  (r.atHead loop).skip.behindRound loop r.scanner

/-- A round over two characters. -/
def roundOfTwo (r : Recorder) (loop : Loop) : Recorder :=
  (r.atHead loop).skip.skip.behindRound loop r.scanner

def skipWhile (loop : Loop) (p : Char → Bool) (r : Recorder) : Recorder :=
  match _ : r.scanner.peek with
  | none => r.atHead loop
  | some c => if p c then (r.round loop).skipWhile loop p else r.atHead loop
termination_by r.scanner.remaining
decreasing_by exact Scanner.remaining_skip_lt ‹_›

def readWord (r : Recorder) : Recorder :=
  let r := r.skipWhile .word isWordPart
  r.addLexeme (wordKind r.scanner.lexeme)

def skipNumber (r : Recorder) : Recorder :=
  let r := r.skipWhile .digits isDigit
  if r.scanner.peek = some '.' ∧ r.scanner.peekNext.any isDigit then
    r.skip.skipWhile .digits isDigit
  else r

def readNumber (r : Recorder) : Recorder :=
  let r := r.skipNumber.slice
  match Binary64.ofText? r.scanner.lexeme with
  | some number =>
    r.addToken ⟨.number, r.scanner.lexeme, r.scanner.startPosition, some number⟩
  | none =>
    (r.addFault (.invalidNumber r.scanner.lexeme)).addToken
      ⟨.number, r.scanner.lexeme, r.scanner.startPosition, some ⟨0⟩⟩

def readBody (q : Quote) (value : String) (r : Recorder) : String × Recorder :=
  match _ : r.scanner.peek with
  | none => (value, r.atHead (.body q))
  | some c =>
    if c = q.char then (value, r.atHead (.body q))
    else if c = '\\' ∧ r.scanner.peekNext = some q.char then
      (r.roundOfTwo (.body q)).readBody q (value.push r.scanner.skip.advance.1)
    else (r.round (.body q)).readBody q (value.push r.scanner.advance.1)
termination_by r.scanner.remaining
decreasing_by
  · exact Nat.lt_of_le_of_lt (Scanner.remaining_skip_le _) (Scanner.remaining_skip_lt ‹_›)
  · exact Scanner.remaining_skip_lt ‹_›

def readString (q : Quote) (r : Recorder) : Recorder :=
  let (value, r) := r.readBody q ""
  if r.scanner.atEnd then r.addFault .unterminatedString else r.skip.addText .string value

def skipLineComment (r : Recorder) : Recorder := r.skipWhile .lineComment (· ≠ '\n')

def skipBlockComment (r : Recorder) : Recorder :=
  match _ : r.scanner.peek with
  | none => (r.atHead .blockComment).addFault .unterminatedComment
  | some c =>
    if c = '*' ∧ r.scanner.peekNext = some '/' then r.roundOfTwo .blockComment
    else (r.round .blockComment).skipBlockComment
termination_by r.scanner.remaining
decreasing_by exact Scanner.remaining_skip_lt ‹_›

def readOther (c : Char) (r : Recorder) : Recorder :=
  if isBlank c then r
  else if isDigit c then r.readNumber
  else if isWordStart c then r.readWord
  else match Quote.ofChar? c with
    | some q => r.readString q
    | none =>
      match Mark.ofChar? c with
      | some m => r.addLexeme m.kind
      | none => r.addFault (.unexpectedCharacter c)

def readFrom (c : Char) (r : Recorder) : Recorder :=
  match c with
  | '-' =>
    match r.take? '-' with
    | some r => r.skipLineComment
    | none => r.addLexeme (.operator .minus)
  | '/' =>
    match r.take? '*' with
    | some r => r.skipBlockComment
    | none => r.addLexeme (.operator .slash)
  | '<' =>
    match r.take? '=' with
    | some r => r.addLexeme (.operator .lessEqual)
    | none =>
      match r.take? '>' with
      | some r => r.addLexeme (.operator .notEqual)
      | none => r.addLexeme (.operator .lessThan)
  | '>' =>
    match r.take? '=' with
    | some r => r.addLexeme (.operator .greaterEqual)
    | none => r.addLexeme (.operator .greaterThan)
  | '!' =>
    match r.take? '=' with
    | some r => r.addLexeme (.operator .notEqual)
    | none => r.addFault .loneBang
  | c => r.readOther c

def beginLexeme (r : Recorder) : Recorder := { r with scanner := r.scanner.beginLexeme }

def scanToken (r : Recorder) : Recorder :=
  let r := r.beginLexeme
  r.skip.readFrom r.scanner.advance.1

/-! ## What is read -/

theorem take?_inv {r t : Recorder} {d : Char} (taken : r.take? d = some t) :
    r.scanner.peek = some d ∧ r.skip = t := by
  unfold take? at taken
  split at taken
  next here => exact ⟨here, Option.some.inj taken⟩
  next => cases taken

/-- Behind its first character a lexeme is read in one of these ways. -/
theorem readFrom_cases {P : Recorder → Prop} (c : Char) (r : Recorder) (blank : P r)
    (number : P r.readNumber) (word : P r.readWord) (string : ∀ q, P (r.readString q))
    (mark : ∀ kind, P (r.addLexeme kind)) (fault : ∀ cause, P (r.addFault cause))
    (pair : ∀ {d}, r.scanner.peek = some d → ∀ kind, P (r.skip.addLexeme kind))
    (lineComment : r.scanner.peek = some '-' → P r.skip.skipLineComment)
    (blockComment : r.scanner.peek = some '*' → P r.skip.skipBlockComment) :
    P (r.readFrom c) := by
  have taking {d : Char} {t : Recorder} (taken : r.take? d = some t) (kind : TokenKind) :
      P (t.addLexeme kind) := by
    obtain ⟨next, rfl⟩ := take?_inv taken
    exact pair next kind
  unfold readFrom
  split
  · split
    next taken =>
      obtain ⟨next, rfl⟩ := take?_inv taken
      exact lineComment next
    next => exact mark _
  · split
    next taken =>
      obtain ⟨next, rfl⟩ := take?_inv taken
      exact blockComment next
    next => exact mark _
  · split
    next taken => exact taking taken _
    next =>
      split
      next taken => exact taking taken _
      next => exact mark _
  · split
    next taken => exact taking taken _
    next => exact mark _
  · split
    next taken => exact taking taken _
    next => exact fault _
  · unfold readOther
    repeat' split
    · exact blank
    · exact number
    · exact word
    · exact string _
    · exact mark _
    · exact fault _

/-! ## Without the log -/

@[simp] theorem scanner_atHead (r : Recorder) (loop : Loop) : (r.atHead loop).scanner = r.scanner :=
  rfl

@[simp] theorem scanner_behindRound (r : Recorder) (loop : Loop) (before : Scanner) :
    (r.behindRound loop before).scanner = r.scanner := rfl

@[simp] theorem scanner_round (r : Recorder) (loop : Loop) :
    (r.round loop).scanner = r.scanner.skip := rfl

@[simp] theorem scanner_roundOfTwo (r : Recorder) (loop : Loop) :
    (r.roundOfTwo loop).scanner = r.scanner.skip.skip := rfl

@[simp] theorem scanner_slice (r : Recorder) : r.slice.scanner = r.scanner := rfl

@[simp] theorem scanner_skip (r : Recorder) : r.skip.scanner = r.scanner.skip := rfl

@[simp] theorem scanner_addLexeme (r : Recorder) (kind : TokenKind) :
    (r.addLexeme kind).scanner = r.scanner.addLexeme kind := rfl

theorem scanner_take? (r : Recorder) (expected : Char) :
    (r.take? expected).map scanner = r.scanner.take? expected := by
  unfold take? Scanner.take?
  split <;> rfl

theorem scanner_skipWhile (loop : Loop) (p : Char → Bool) (r : Recorder) :
    (r.skipWhile loop p).scanner = r.scanner.skipWhile p := by
  fun_induction skipWhile loop p r with
  | case1 r none => rw [Scanner.skipWhile_of_peek_none none, scanner_atHead]
  | case2 r c next inside ih =>
    rw [ih, Scanner.skipWhile_of_peek next, if_pos inside, scanner_round]
  | case3 r c next outside =>
    rw [Scanner.skipWhile_of_peek next, if_neg outside, scanner_atHead]

theorem scanner_readWord (r : Recorder) : r.readWord.scanner = r.scanner.readWord := by
  simp only [readWord, Scanner.readWord, scanner_addLexeme, scanner_skipWhile]

theorem scanner_skipNumber (r : Recorder) : r.skipNumber.scanner = r.scanner.skipNumber := by
  simp only [skipNumber, Scanner.skipNumber, ← scanner_skipWhile .digits, ← scanner_skip]
  split <;> rfl

theorem scanner_readNumber (r : Recorder) : r.readNumber.scanner = r.scanner.readNumber := by
  simp only [readNumber, Scanner.readNumber, ← scanner_skipNumber, scanner_slice]
  cases Binary64.ofText? r.skipNumber.scanner.lexeme <;> rfl

theorem scanner_readBody (q : Quote) (value : String) (r : Recorder) :
    ((r.readBody q value).1, (r.readBody q value).2.scanner) = r.scanner.readBody q value := by
  fun_induction readBody q value r with
  | case1 value r none => rw [Scanner.readBody_of_peek_none none, scanner_atHead]
  | case2 value r next => rw [Scanner.readBody_of_peek next, if_pos rfl, scanner_atHead]
  | case3 value r c next ordinary escaped ih =>
    rw [ih, Scanner.readBody_of_peek next, if_neg ordinary, if_pos escaped, scanner_roundOfTwo]
  | case4 value r c next ordinary plain ih =>
    rw [ih, Scanner.readBody_of_peek next, if_neg ordinary, if_neg plain, scanner_round]

theorem scanner_readString (q : Quote) (r : Recorder) :
    (r.readString q).scanner = r.scanner.readString q := by
  rw [readString, Scanner.readString, ← scanner_readBody]
  generalize r.readBody q "" = body
  exact apply_ite scanner ..

theorem scanner_skipBlockComment (r : Recorder) :
    r.skipBlockComment.scanner = r.scanner.skipBlockComment := by
  fun_induction skipBlockComment r with
  | case1 r none => rw [Scanner.skipBlockComment_of_peek_none none]; rfl
  | case2 r c next closing =>
    rw [Scanner.skipBlockComment_of_peek next, if_pos closing, scanner_roundOfTwo]
  | case3 r c next inside ih =>
    rw [ih, Scanner.skipBlockComment_of_peek next, if_neg inside, scanner_round]

theorem scanner_readOther (c : Char) (r : Recorder) :
    (r.readOther c).scanner = r.scanner.readOther c := by
  unfold readOther Scanner.readOther
  split
  · rfl
  split
  · exact scanner_readNumber r
  split
  · exact scanner_readWord r
  cases Quote.ofChar? c with
  | some q => exact scanner_readString q r
  | none => cases Mark.ofChar? c <;> rfl

theorem scanner_readFrom (c : Char) (r : Recorder) :
    (r.readFrom c).scanner = r.scanner.readFrom c := by
  unfold readFrom
  split
  · rw [Scanner.readFrom, ← scanner_take?]
    cases r.take? '-' with
    | none => rfl
    | some t => exact scanner_skipWhile _ _ t
  · rw [Scanner.readFrom, ← scanner_take?]
    cases r.take? '*' with
    | none => rfl
    | some t => exact scanner_skipBlockComment t
  · rw [Scanner.readFrom, ← scanner_take?, ← scanner_take?]
    cases r.take? '=' with
    | none => cases r.take? '>' <;> rfl
    | some t => rfl
  · rw [Scanner.readFrom, ← scanner_take?]
    cases r.take? '=' <;> rfl
  · rw [Scanner.readFrom, ← scanner_take?]
    cases r.take? '=' <;> rfl
  next dash slash less greater bang =>
    rw [Scanner.readFrom.eq_6 _ _ dash slash less greater bang]
    exact scanner_readOther c r

theorem scanner_scanToken (r : Recorder) : r.scanToken.scanner = r.scanner.scanToken :=
  scanner_readFrom _ _

/-- Reads a lexeme in each round until the text ends. -/
def scanTokens (r : Recorder) : Recorder :=
  let here := r.atHead .lexemes
  if r.scanner.atEnd then here
  else (here.scanToken.behindRound .lexemes r.scanner).scanTokens
termination_by r.scanner.remaining
decreasing_by
  rw [scanner_behindRound, scanner_scanToken]
  exact Scanner.remaining_scanToken_lt (eq_false_of_ne_true ‹_›)

theorem scanner_scanTokens (r : Recorder) : r.scanTokens.scanner = r.scanner.scanTokens := by
  fun_induction scanTokens r with
  | case1 r here done => rw [Scanner.scanTokens, if_pos done]; rfl
  | case2 r here more ih =>
    rw [ih, scanner_behindRound, scanner_scanToken, Scanner.scanTokens.eq_1 r.scanner, if_neg more]
    rfl

end Recorder

end SqlConsole
