/-! Places in a text. Lines and columns count from one and offsets from zero, all in
characters, so the place after a text says how long it is and where its last line stands. -/
namespace SqlConsole

structure Position where
  line : Nat
  column : Nat
  offset : Nat
  deriving DecidableEq, Repr

namespace Position

/-- The place before the first character. -/
def start : Position := ⟨1, 1, 0⟩

/-- A newline opens the next line; every other character takes one column. -/
def advance (p : Position) (c : Char) : Position :=
  if c = '\n' then ⟨p.line + 1, 1, p.offset + 1⟩ else ⟨p.line, p.column + 1, p.offset + 1⟩

/-- The place reached from `p` over `text`. -/
def after (p : Position) (text : List Char) : Position := text.foldl advance p

instance : ToString Position where
  toString p := toString p.line ++ ":" ++ toString p.column

@[simp] theorem after_nil (p : Position) : p.after [] = p := rfl

@[simp] theorem after_cons (p : Position) (c : Char) (text : List Char) :
    p.after (c :: text) = (p.advance c).after text := rfl

@[simp] theorem after_append (p : Position) (left right : List Char) :
    p.after (left ++ right) = (p.after left).after right := by
  simp [after]

@[simp] theorem advance_offset (p : Position) (c : Char) :
    (p.advance c).offset = p.offset + 1 := by
  unfold advance; split <;> rfl

end Position

end SqlConsole
