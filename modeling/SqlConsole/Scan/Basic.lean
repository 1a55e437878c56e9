import SqlConsole.Binary64.Nearest
import SqlConsole.Lexeme.Cut
import SqlConsole.Scan.Fault
import SqlConsole.Token.Basic

/-! Scanning: the lexemes of a text, each at its place, give tokens and faults. A fault does
not stop the scan; the offending lexeme is passed over and gives no token. -/
namespace SqlConsole

/-- A lexeme and the place of its first character. -/
structure Placed where
  position : Position
  lexeme : Lexeme
  deriving DecidableEq, Repr

/-- The lexemes in a row, the first of them at `p`. -/
def place (p : Position) : List Lexeme → List Placed
  | [] => []
  | l :: rest => ⟨p, l⟩ :: place (p.after l.text) rest

/-- A word is a keyword if it spells one in any case. -/
def wordKind (word : String) : TokenKind :=
  match Keyword.ofWord? word with
  | some k => .keyword k
  | none => .identifier

namespace Placed

/-- The token of a lexeme. Blanks, comments and faulty lexemes have none. -/
def token? (x : Placed) : Option Token :=
  match x.lexeme with
  | .quoted q body => some ⟨.string, String.ofList (q.unescape body), x.position, none⟩
  | .whole digits =>
    some ⟨.number, String.ofList digits, x.position, some (Binary64.ofNumeral digits [])⟩
  | .decimal first second =>
    some ⟨.number, String.ofList x.lexeme.text, x.position,
      some (Binary64.ofNumeral first second)⟩
  | .word letters =>
    some ⟨wordKind (String.ofList letters), String.ofList letters, x.position, none⟩
  | .mark m => some ⟨m.kind, String.ofList m.text, x.position, none⟩
  | _ => none

/-- The fault of a lexeme, at its first character. -/
def fault? (x : Placed) : Option ScanFault :=
  match x.lexeme with
  | .openComment _ => some ⟨.unterminatedComment, x.position⟩
  | .openQuote _ _ => some ⟨.unterminatedString, x.position⟩
  | .stray c => some ⟨if c = '!' then .loneBang else .unexpectedCharacter c, x.position⟩
  | _ => none

end Placed

structure ScanOutput where
  tokens : List Token
  faults : List ScanFault
  deriving DecidableEq, Repr

def ScanOutput.hasFaults (output : ScanOutput) : Bool := !output.faults.isEmpty

/-- The token behind the last character. -/
def endToken (p : Position) : Token := ⟨.endOfText, "", p, none⟩

def placedLexemes (text : List Char) : List Placed := place .start (lexemes text)

def scan (source : String) : ScanOutput where
  tokens := (placedLexemes source.toList).filterMap Placed.token? ++
    [endToken (Position.start.after source.toList)]
  faults := (placedLexemes source.toList).filterMap Placed.fault?

end SqlConsole
