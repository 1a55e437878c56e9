/-! Texts as bytes. Input and output are byte strings; text is what they hold in UTF-8. -/
namespace SqlConsole

abbrev Bytes := List UInt8

namespace Bytes

def ofText (s : String) : Bytes := s.toUTF8.data.toList

/-- The text of bytes that are valid UTF-8. -/
def toText? (bytes : Bytes) : Option String := String.fromUTF8? ⟨bytes.toArray⟩

theorem toText?_ofText (s : String) : toText? (ofText s) = some s := by
  have valid : ByteArray.IsValidUTF8 ⟨s.toByteArray.data⟩ := s.isValidUTF8
  simp [toText?, ofText, String.fromUTF8?, String.fromUTF8, valid]

def newline : UInt8 := 10

/-- The pieces that end with a newline each; a last piece without one counts if it is not
empty. -/
def lines : Bytes → List Bytes
  | [] => []
  | b :: rest =>
    if b = newline then [b] :: lines rest
    else match lines rest with
      | [] => [[b]]
      | line :: more => (b :: line) :: more

end Bytes

end SqlConsole
