import SqlConsole.Token.Keyword

/-! What kinds of token there are, and the two names of each: the one shown to people and
the one used in structured reports. They differ for punctuation and the end of the text. -/
namespace SqlConsole

inductive Operator where
  | equal | notEqual | lessThan | lessEqual | greaterThan | greaterEqual
  | plus | minus | star | slash | percent
  deriving DecidableEq, Repr

namespace Operator

def all : List Operator :=
  [equal, notEqual, lessThan, lessEqual, greaterThan, greaterEqual,
   plus, minus, star, slash, percent]

/-- The usual spelling. Inequality has a second one, `<>`. -/
def spelling : Operator → String
  | equal => "=" | notEqual => "!=" | lessThan => "<" | lessEqual => "<="
  | greaterThan => ">" | greaterEqual => ">="
  | plus => "+" | minus => "-" | star => "*" | slash => "/" | percent => "%"

def name : Operator → String
  | equal => "EQUAL" | notEqual => "NOT_EQUAL"
  | lessThan => "LESS_THAN" | lessEqual => "LESS_EQUAL"
  | greaterThan => "GREATER_THAN" | greaterEqual => "GREATER_EQUAL"
  | plus => "PLUS" | minus => "MINUS" | star => "STAR" | slash => "SLASH"
  | percent => "PERCENT"

end Operator

inductive Delimiter where
  | leftParen | rightParen | comma | semicolon | dot
  deriving DecidableEq, Repr

namespace Delimiter

def all : List Delimiter := [leftParen, rightParen, comma, semicolon, dot]

def spelling : Delimiter → String
  | leftParen => "(" | rightParen => ")" | comma => "," | semicolon => ";" | dot => "."

def name : Delimiter → String
  | leftParen => "LEFT_PAREN" | rightParen => "RIGHT_PAREN" | comma => "COMMA"
  | semicolon => "SEMICOLON" | dot => "DOT"

end Delimiter

inductive TokenKind where
  | keyword (word : Keyword)
  | identifier
  | number
  | string
  | operator (sign : Operator)
  | delimiter (sign : Delimiter)
  | endOfText
  | unknown
  deriving DecidableEq, Repr

namespace TokenKind

def all : List TokenKind :=
  Keyword.all.map keyword ++ [identifier, number, string] ++
    Operator.all.map operator ++ Delimiter.all.map delimiter ++ [endOfText, unknown]

/-- The name shown to people. -/
def displayName : TokenKind → String
  | keyword k => k.name
  | identifier => "IDENTIFIER"
  | number => "NUMBER"
  | string => "STRING"
  | operator o => o.spelling
  | delimiter d => d.spelling
  | endOfText => "EOF"
  | unknown => "UNKNOWN"

/-- The name used in structured reports. -/
def name : TokenKind → String
  | keyword k => k.name
  | identifier => "IDENTIFIER"
  | number => "NUMBER"
  | string => "STRING"
  | operator o => o.name
  | delimiter d => d.name
  | endOfText => "END_OF_FILE"
  | unknown => "UNKNOWN"

def ofName? (word : String) : Option TokenKind := all.find? fun k => k.name = word

/-- The keywords are the listed ones. -/
def isKeyword : TokenKind → Bool
  | keyword k => k ∈ Keyword.all
  | _ => false

/-- Identifiers count as literals beside numbers and strings. -/
def isLiteral : TokenKind → Bool
  | identifier | number | string => true
  | _ => false

def isOperator : TokenKind → Bool
  | operator _ => true
  | _ => false

def isDelimiter : TokenKind → Bool
  | delimiter _ => true
  | _ => false

instance : ToString TokenKind where
  toString := displayName

end TokenKind

end SqlConsole
