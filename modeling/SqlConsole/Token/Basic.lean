import SqlConsole.Binary64.Basic
import SqlConsole.Text.Position
import SqlConsole.Token.Kind

/-! Tokens: a kind, the text they stand for, the place of their first character, and the
number that a numeral denotes. -/
namespace SqlConsole

structure Token where
  kind : TokenKind
  value : String
  position : Position
  number : Option Binary64 := none
  deriving DecidableEq, Repr

namespace Token

def isEnd (t : Token) : Bool := t.kind = .endOfText

instance : ToString Token where
  toString t := toString t.kind ++ "('" ++ t.value ++ "') at " ++ toString t.position

end Token

end SqlConsole
