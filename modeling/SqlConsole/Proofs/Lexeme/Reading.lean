import SqlConsole.Proofs.Text.Place
import SqlConsole.Scan.Basic

/-! What a lexeme is, said without cutting: `Reading` gives the classes of lexemes and what each
of them yields, and `Tokenisation` takes the longest reading again and again. Nothing here
follows the way in which a text is cut. -/
namespace SqlConsole

/-- What a piece of text gives, its place apart. -/
inductive Yield where
  | nothing
  | token (kind : TokenKind) (value : List Char) (number : Option Binary64)
  | fault (cause : ScanCause)

namespace Yield

def token? (p : Position) : Yield → Option Token
  | token kind value number => some ⟨kind, String.ofList value, p, number⟩
  | _ => none

def fault? (p : Position) : Yield → Option ScanFault
  | fault cause => some ⟨cause, p⟩
  | _ => none

end Yield

/-- `*/` stands nowhere in the text. -/
def NoCommentEnd (text : List Char) : Prop := text.IsChain fun a b => ¬ (a = '*' ∧ b = '/')

/-- Behind an opening mark, every further one stands directly behind a backslash. -/
def NoClosingMark (q : Quote) (text : List Char) : Prop :=
  (q.char :: text).IsChain fun a b => b = q.char → a = '\\'

def Digits (text : List Char) : Prop := text ≠ [] ∧ ∀ c ∈ text, isDigit c = true

/-- Operators and delimiters as they are written. -/
def signs : List (List Char × TokenKind) :=
  [(['('], .delimiter .leftParen), ([')'], .delimiter .rightParen),
   ([','], .delimiter .comma), ([';'], .delimiter .semicolon), (['.'], .delimiter .dot),
   (['+'], .operator .plus), (['-'], .operator .minus), (['*'], .operator .star),
   (['/'], .operator .slash), (['%'], .operator .percent), (['='], .operator .equal),
   (['<'], .operator .lessThan), (['<', '='], .operator .lessEqual),
   (['<', '>'], .operator .notEqual), (['>'], .operator .greaterThan),
   (['>', '='], .operator .greaterEqual), (['!', '='], .operator .notEqual)]

/-- The characters outside words and numbers with which some lexeme begins. -/
def openers : List Char :=
  [' ', '\r', '\t', '\n', '\'', '"', '(', ')', ',', ';', '.', '+', '-', '*', '/', '%', '=', '<',
   '>', '!']

/-- `Reading text rest y`: in front of `rest`, `text` may be read as one lexeme, which yields
`y`. Only the two constructs that are never closed depend on `rest`: they need the end. -/
inductive Reading : List Char → List Char → Yield → Prop where
  | blank : c ∈ [' ', '\r', '\t', '\n'] → Reading [c] rest .nothing
  | lineComment : '\n' ∉ body → Reading ('-' :: '-' :: body) rest .nothing
  | blockComment : NoCommentEnd (body ++ ['*']) →
      Reading ('/' :: '*' :: (body ++ ['*', '/'])) rest .nothing
  | openComment : NoCommentEnd body →
      Reading ('/' :: '*' :: body) [] (.fault .unterminatedComment)
  /-- The value with a backslash put before each of its quote marks is the body. -/
  | quoted : NoClosingMark q body → body.getLast? ≠ some '\\' → q.escape value = body →
      Reading (q.char :: (body ++ [q.char])) rest (.token .string value none)
  | openQuote : NoClosingMark q body → Reading (q.char :: body) [] (.fault .unterminatedString)
  | whole : Digits digits →
      Reading digits rest (.token .number digits (some (Binary64.ofNumeral digits [])))
  | decimal : Digits first → Digits second →
      Reading (first ++ '.' :: second) rest
        (.token .number (first ++ '.' :: second) (some (Binary64.ofNumeral first second)))
  | keyword : isWordStart c = true → (∀ d ∈ letters, isWordPart d = true) →
      capitals (String.ofList (c :: letters)) = k.name →
      Reading (c :: letters) rest (.token (.keyword k) (c :: letters) none)
  | identifier : isWordStart c = true → (∀ d ∈ letters, isWordPart d = true) →
      (∀ k : Keyword, capitals (String.ofList (c :: letters)) ≠ k.name) →
      Reading (c :: letters) rest (.token .identifier (c :: letters) none)
  | sign : (text, kind) ∈ signs → Reading text rest (.token kind text none)
  | bang : Reading ['!'] rest (.fault .loneBang)
  | other : c ∉ openers → isDigit c = false → isWordStart c = false →
      Reading [c] rest (.fault (.unexpectedCharacter c))

/-- No lexeme that could be read here is longer. -/
structure LongestReading (text rest : List Char) (y : Yield) : Prop where
  reading : Reading text rest y
  longest : ∀ other left z, other ++ left = text ++ rest → Reading other left z →
    other.length ≤ text.length

structure Piece where
  text : List Char
  yield : Yield

/-- The text falls into these pieces, each of them the longest lexeme where it begins. -/
inductive Tokenisation : List Char → List Piece → Prop where
  | nil : Tokenisation [] []
  | cons : text ≠ [] → LongestReading text rest y → Tokenisation rest more →
      Tokenisation (text ++ rest) (⟨text, y⟩ :: more)

namespace Piece

/-- What the pieces yield, each at the place behind `before` and the pieces in front of it. -/
def yields (before : List Char) : List Piece → List (Position × Yield)
  | [] => []
  | piece :: rest => (.behind before, piece.yield) :: yields (before ++ piece.text) rest

/-- The tokens of the pieces that are one, in order, and the end token behind them all. -/
def tokens (pieces : List Piece) : List Token :=
  ((yields [] pieces).filterMap fun (p, y) => y.token? p) ++
    [⟨.endOfText, "", .behind (pieces.flatMap text), none⟩]

def faults (pieces : List Piece) : List ScanFault :=
  (yields [] pieces).filterMap fun (p, y) => y.fault? p

end Piece

end SqlConsole
