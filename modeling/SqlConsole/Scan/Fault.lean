import SqlConsole.Text.Position

/-! What a scan reports besides tokens: a cause and the place of the lexeme that caused it. -/
namespace SqlConsole

inductive ScanCause where
  | loneBang
  | unexpectedCharacter (c : Char)
  | unterminatedString
  | unterminatedComment
  /-- Reported by number readers outside the scan; every numeral that a scan cuts is one. -/
  | invalidNumber (text : String)
  deriving DecidableEq, Repr

def ScanCause.message : ScanCause → String
  | loneBang => "Unexpected character '!'"
  | unexpectedCharacter c => "Unexpected character: '" ++ c.toString ++ "'"
  | unterminatedString => "Unterminated string literal"
  | unterminatedComment => "Unterminated block comment"
  | invalidNumber text => "Invalid number format: " ++ text

structure ScanFault where
  cause : ScanCause
  position : Position
  deriving DecidableEq, Repr

instance : ToString ScanFault where
  toString f := "[Line " ++ toString f.position.line ++ ", Col " ++ toString f.position.column ++
    "] " ++ f.cause.message

end SqlConsole
