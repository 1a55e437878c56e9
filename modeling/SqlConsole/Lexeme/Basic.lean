import SqlConsole.Token.Kind

/-! Lexemes: the pieces into which a query text is cut without remainder. `Lexeme.text`
gives back the characters of a piece. -/
namespace SqlConsole

inductive Quote where
  | single | double
  deriving DecidableEq, Repr

namespace Quote

def char : Quote → Char
  | single => '\''
  | double => '"'

def ofChar? (c : Char) : Option Quote :=
  if c = '\'' then some single else if c = '"' then some double else none

/-- A body with every quote mark preceded by a backslash. -/
def escape (q : Quote) : List Char → List Char
  | [] => []
  | c :: rest => if c = q.char then '\\' :: c :: q.escape rest else c :: q.escape rest

/-- The text that a body stands for: a backslash before the quote mark is dropped, and any
other backslash, a doubled one included, stands for itself. -/
def unescape (q : Quote) : List Char → List Char
  | [] => []
  | [c] => [c]
  | c :: d :: rest =>
    if c = '\\' ∧ d = q.char then d :: q.unescape rest else c :: q.unescape (d :: rest)

theorem char_of_ofChar? {c : Char} {q : Quote} (h : ofChar? c = some q) : q.char = c := by
  unfold ofChar? at h
  split at h
  · cases h; simp_all [char]
  · split at h
    · cases h; simp_all [char]
    · cases h

end Quote

/-- Punctuation as it is written. Inequality alone has two spellings. -/
inductive Mark where
  | operator (sign : Operator)
  | delimiter (sign : Delimiter)
  | angles
  deriving DecidableEq, Repr

namespace Mark

def text : Mark → List Char
  | operator o => o.spelling.toList
  | delimiter d => d.spelling.toList
  | angles => ['<', '>']

def kind : Mark → TokenKind
  | operator o => .operator o
  | delimiter d => .delimiter d
  | angles => .operator .notEqual

/-- The mark that `c` spells on its own. -/
def ofChar? : Char → Option Mark
  | '(' => some (.delimiter .leftParen)
  | ')' => some (.delimiter .rightParen)
  | ',' => some (.delimiter .comma)
  | ';' => some (.delimiter .semicolon)
  | '.' => some (.delimiter .dot)
  | '+' => some (.operator .plus)
  | '-' => some (.operator .minus)
  | '*' => some (.operator .star)
  | '/' => some (.operator .slash)
  | '%' => some (.operator .percent)
  | '=' => some (.operator .equal)
  | '<' => some (.operator .lessThan)
  | '>' => some (.operator .greaterThan)
  | _ => none

theorem text_of_ofChar? {c : Char} {m : Mark} (h : ofChar? c = some m) : m.text = [c] := by
  unfold ofChar? at h
  split at h <;> cases h <;> decide

theorem text_ne_nil (m : Mark) : m.text ≠ [] := by
  rcases m with ⟨_ | _⟩ | ⟨_ | _⟩ | _ <;> decide

end Mark

inductive Lexeme where
  | blank (c : Char)
  /-- Two dashes and the rest of their line. -/
  | lineComment (body : List Char)
  | blockComment (body : List Char)
  /-- A block comment that is never closed. -/
  | openComment (body : List Char)
  /-- A string; the body stands between the quote marks as it is written. -/
  | quoted (q : Quote) (body : List Char)
  /-- A string that is never closed. -/
  | openQuote (q : Quote) (body : List Char)
  | whole (digits : List Char)
  /-- A numeral with a point; both runs of digits are non-empty. -/
  | decimal (first second : List Char)
  | word (letters : List Char)
  | mark (m : Mark)
  /-- A character with which no other lexeme begins here. -/
  | stray (c : Char)
  deriving DecidableEq, Repr

namespace Lexeme

def text : Lexeme → List Char
  | blank c => [c]
  | lineComment body => '-' :: '-' :: body
  | blockComment body => '/' :: '*' :: (body ++ ['*', '/'])
  | openComment body => '/' :: '*' :: body
  | quoted q body => q.char :: (body ++ [q.char])
  | openQuote q body => q.char :: body
  | whole digits => digits
  | decimal first second => first ++ '.' :: second
  | word letters => letters
  | mark m => m.text
  | stray c => [c]

end Lexeme

end SqlConsole
