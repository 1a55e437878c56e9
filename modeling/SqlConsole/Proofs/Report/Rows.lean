import Mathlib.Data.List.DropRight
import SqlConsole.Proofs.Lexeme.Stopping
import SqlConsole.Proofs.Report.Decoding
import SqlConsole.Proofs.Text.Digits
import SqlConsole.Proofs.Text.Separators

/-! One line of the table report, read back. A value may hold anything, bars and marks and frames
included, but no other cell of its row holds a bar: the cell in front is read up to the first bar
and the cells behind from the last ones. The line of a fault is read from its front, where the
place stands, and what is left is the message. -/
namespace SqlConsole

theorem TokenKind.displayName_injective {kind other : TokenKind}
    (same : kind.displayName = other.displayName) : kind = other := by
  have distinct : (TokenKind.all.map TokenKind.displayName).Nodup := by decide +kernel
  exact List.inj_on_of_nodup_map distinct kind.mem_all other.mem_all same

/-! ## Messages -/

namespace ScanCause

theorem toList_unexpectedCharacter (c : Char) :
    (unexpectedCharacter c).message.toList = "Unexpected character: '".toList ++ [c, '\''] := by
  dsimp only [message]
  rw [String.toList_append, String.toList_append, List.append_assoc, Char.toString_eq_singleton,
    String.toList_singleton]
  rfl

theorem toList_invalidNumber (text : String) :
    (invalidNumber text).message.toList = "Invalid number format: ".toList ++ text.toList := by
  dsimp only [message]
  rw [String.toList_append]

/-- How the message begins, as far as all messages go. -/
def opening : ScanCause → List Char
  | loneBang => "Unexpected character ".toList
  | unexpectedCharacter _ => "Unexpected character:".toList
  | unterminatedString => "Unterminated string l".toList
  | unterminatedComment => "Unterminated block co".toList
  | invalidNumber _ => "Invalid number format".toList

theorem take_message (cause : ScanCause) : cause.message.toList.take 21 = cause.opening := by
  cases cause with
  | unexpectedCharacter c =>
    rw [toList_unexpectedCharacter]
    rfl
  | invalidNumber text =>
    rw [toList_invalidNumber]
    rfl
  | loneBang => decide
  | unterminatedString => decide
  | unterminatedComment => decide

theorem message_injective {cause other : ScanCause} (same : cause.message = other.message) :
    cause = other := by
  have texts := congrArg String.toList same
  have openings : cause.opening = other.opening := by
    rw [← take_message, ← take_message, texts]
  cases cause <;> cases other
  case unexpectedCharacter.unexpectedCharacter c d =>
    rw [toList_unexpectedCharacter, toList_unexpectedCharacter] at texts
    rw [(List.cons.inj (List.append_cancel_left texts)).1]
  case invalidNumber.invalidNumber text text' =>
    rw [toList_invalidNumber, toList_invalidNumber] at texts
    rw [String.toList_inj.mp (List.append_cancel_left texts)]
  all_goals first | rfl | exact absurd openings (by dsimp only [opening]; decide)

end ScanCause

/-- A newline is a blank, so no scan complains about it. -/
theorem newline_notMem_message {source : String} {f : ScanFault}
    (member : f ∈ (scan source).faults) : '\n' ∉ f.cause.message.toList := by
  obtain ⟨p, l, formed, found⟩ := scan_fault_cases member
  cases l with
  | stray c =>
    cases found
    dsimp only
    split
    · decide
    · rw [ScanCause.toList_unexpectedCharacter]
      have visible : '\n' ≠ c := by
        rintro rfl
        exact absurd formed.1 (by decide)
      simp [visible]
  | openComment | openQuote =>
    cases found
    dsimp only
    decide
  | _ => cases found

namespace Table

/-! ## Cells -/

/-- A text with a space in front of it, and at least one behind. -/
def cell (text : List Char) (spaces : Nat) : List Char :=
  ' ' :: (text ++ List.replicate (spaces + 1) ' ')

/-- The end of the text is seen in front of the spaces that follow. -/
def EndsVisibly (text : List Char) : Prop := ∀ c ∈ text.getLast?, c ≠ ' '

theorem rdropWhile_spaces {text : List Char} (visible : EndsVisibly text) (spaces : Nat) :
    (text ++ List.replicate spaces ' ').rdropWhile (· = ' ') = text := by
  have inside : ∀ c ∈ List.replicate spaces ' ', decide (c = ' ') = true := by
    simp [List.mem_replicate]
  have outside : ∀ c ∈ text.reverse.head?, decide (c = ' ') = false := by
    intro c last
    rw [List.head?_reverse] at last
    simp [visible c last]
  rw [List.rdropWhile, List.reverse_append, List.reverse_replicate,
    (takeWhile_of_stop inside outside).2, List.reverse_reverse]

theorem cell_injective {text other : List Char} {a b : Nat} (visible : EndsVisibly text)
    (also : EndsVisibly other) (same : cell text a = cell other b) : text = other := by
  have trimmed := congrArg (List.rdropWhile (· = ' ')) (List.cons.inj same).2
  rwa [rdropWhile_spaces visible, rdropWhile_spaces also] at trimmed

theorem notMem_cell {c : Char} {text : List Char} (free : c ∉ text) (visible : c ≠ ' ')
    (spaces : Nat) : c ∉ cell text spaces := by
  simp [cell, free, visible]

theorem pad_eq (width : Nat) (text : List Char) :
    ' ' :: (pad width text ++ [' ']) = cell text (width - text.length) := by
  rw [pad, cell, List.replicate_succ', List.append_assoc]

theorem length_pad (width : Nat) (text : List Char) :
    (pad width text).length = max width text.length := by
  rw [pad, List.length_append, List.length_replicate]
  omega

/-! ## Rows -/

/-- The value of a token between marks, with its newlines shown. -/
def quoted (t : Token) : List Char := '\'' :: (showNewlines t.value.toList ++ ['\''])

/-- The line has a cell each for the kind, the value, the line and the column of the token. Every
cell holds its whole text. -/
def HoldsToken (t : Token) (line : List Char) : Prop :=
  ∃ a b c d, line =
    '|' :: (cell t.kind.displayName.toList a ++
      '|' :: (cell (quoted t) b ++
        '|' :: (cell (Nat.toDigits 10 t.position.line) c ++
          '|' :: (cell (Nat.toDigits 10 t.position.column) d ++ ['|', '\n']))))

/-- What is seen of a token in its row. -/
def rowContent (t : Token) : TokenKind × Nat × Nat × List Char :=
  (t.kind, t.position.line, t.position.column, showNewlines t.value.toList)

/-- The names of kinds are shown without spaces, and nothing that ends a cell or a line is in
them. -/
theorem notMem_displayName {c : Char} (other : c ∈ [' ', '|', '\n']) (kind : TokenKind) :
    c ∉ kind.displayName.toList := by
  have plain : ∀ kind ∈ TokenKind.all,
      kind.displayName.toList.all fun c => !decide (c ∈ [' ', '|', '\n']) := by
    decide +kernel
  intro mem
  simpa [other] using List.all_eq_true.mp (plain kind kind.mem_all) c mem

theorem endsVisibly_displayName (kind : TokenKind) : EndsVisibly kind.displayName.toList := by
  rintro c last rfl
  exact notMem_displayName (by simp) kind (List.mem_of_getLast? last)

theorem endsVisibly_quoted (t : Token) : EndsVisibly (quoted t) := by
  intro c last
  rw [quoted, ← List.cons_append, List.getLast?_concat] at last
  cases last
  decide

theorem endsVisibly_toDigits (n : Nat) : EndsVisibly (Nat.toDigits 10 n) := by
  rintro c last rfl
  exact notMem_toDigits rfl n (List.mem_of_getLast? last)

theorem newline_notMem_quoted (t : Token) : '\n' ∉ quoted t := by
  have shown : '\n' ∉ showNewlines t.value.toList := by
    intro mem
    obtain ⟨c, -, within⟩ := List.mem_flatMap.mp mem
    split at within
    next => simp at within
    next other => exact other (List.mem_singleton.mp within).symm
  simp [quoted, shown]

theorem HoldsToken.isLine {t : Token} {line : List Char} (holds : HoldsToken t line) :
    IsLine line := by
  obtain ⟨a, b, c, d, rfl⟩ := holds
  refine ⟨'|' :: (cell t.kind.displayName.toList a ++
    '|' :: (cell (quoted t) b ++
      '|' :: (cell (Nat.toDigits 10 t.position.line) c ++
        '|' :: (cell (Nat.toDigits 10 t.position.column) d ++ ['|'])))), ?_, ?_⟩
  · have free {text : List Char} (inside : '\n' ∉ text) (spaces : Nat) :
        '\n' ∉ cell text spaces := notMem_cell inside (by decide) spaces
    have kind := free (notMem_displayName (by simp) t.kind) a
    have value := free (newline_notMem_quoted t) b
    have line := free (notMem_toDigits rfl t.position.line) c
    have column := free (notMem_toDigits rfl t.position.column) d
    simp [kind, value, line, column]
  · simp

/-- A row is read from both ends. -/
theorem HoldsToken.rowContent_eq {t u : Token} {line : List Char} (holds : HoldsToken t line)
    (also : HoldsToken u line) : rowContent t = rowContent u := by
  obtain ⟨a, b, c, d, rfl⟩ := holds
  obtain ⟨a', b', c', d', same⟩ := also
  have bar (kind : TokenKind) (spaces : Nat) : '|' ∉ cell kind.displayName.toList spaces :=
    notMem_cell (notMem_displayName (by simp) kind) (by decide) spaces
  have barDigits (n spaces : Nat) : '|' ∉ cell (Nat.toDigits 10 n) spaces :=
    notMem_cell (notMem_toDigits rfl n) (by decide) spaces
  -- the kind from the front, column and line from the back, and the value is what is left
  obtain ⟨kinds, same⟩ := append_separator_inj (bar _ _) (bar _ _) (List.cons.inj same).2
  have backwards (value line column : List Char) :
      value ++ '|' :: (line ++ '|' :: (column ++ ['|', '\n'])) =
        ((value ++ '|' :: line) ++ '|' :: column) ++ ['|', '\n'] := by
    simp only [List.append_assoc, List.cons_append]
  rw [backwards, backwards] at same
  obtain ⟨same, columns⟩ :=
    append_last_separator_inj (barDigits _ _) (barDigits _ _) (List.append_cancel_right same)
  obtain ⟨values, lines⟩ := append_last_separator_inj (barDigits _ _) (barDigits _ _) same
  have kind := cell_injective (endsVisibly_displayName _) (endsVisibly_displayName _) kinds
  have value := cell_injective (endsVisibly_quoted t) (endsVisibly_quoted u) values
  have line := cell_injective (endsVisibly_toDigits _) (endsVisibly_toDigits _) lines
  have column := cell_injective (endsVisibly_toDigits _) (endsVisibly_toDigits _) columns
  rw [rowContent, rowContent,
    TokenKind.displayName_injective (String.toList_inj.mp kind), toDigits_injective line,
    toDigits_injective column, List.append_cancel_right (List.cons.inj value).2]

theorem holdsToken_tokenRow (t : Token) : HoldsToken t (tokenRow t) := by
  refine ⟨kindWidth - t.kind.displayName.toList.length, valueWidth - (quoted t).length,
    numberWidth - (Nat.toDigits 10 t.position.line).length,
    numberWidth - (Nat.toDigits 10 t.position.column).length, ?_⟩
  simp only [← pad_eq]
  simp [tokenRow, row, quoted]

theorem length_displayName_le (kind : TokenKind) :
    kind.displayName.toList.length ≤ kindWidth := by
  have short : ∀ kind ∈ TokenKind.all, kind.displayName.toList.length ≤ kindWidth := by
    decide +kernel
  exact short kind kind.mem_all

theorem length_tokenRow {t : Token} (value : (quoted t).length ≤ valueWidth)
    (line : (Nat.toDigits 10 t.position.line).length ≤ numberWidth)
    (column : (Nat.toDigits 10 t.position.column).length ≤ numberWidth) :
    (tokenRow t).length = frame.length := by
  have kind := length_displayName_le t.kind
  change (row _ (quoted t) _ _).length = _
  simp only [row, frame, dashes, List.length_append, List.length_cons, length_pad,
    List.length_replicate, List.length_nil, Nat.max_eq_left kind, Nat.max_eq_left value,
    Nat.max_eq_left line, Nat.max_eq_left column]
  omega

/-! ## Lines of faults -/

/-- The line for a fault. -/
def faultLine (f : ScanFault) : List Char := ("  • " ++ toString f ++ "\n").toList

theorem toList_fault (f : ScanFault) :
    (toString f).toList = "[Line ".toList ++ (Nat.toDigits 10 f.position.line ++
      ',' :: (" Col ".toList ++ (Nat.toDigits 10 f.position.column ++
        ']' :: ' ' :: f.cause.message.toList))) := by
  change ("[Line " ++ f.position.line.repr ++ ", Col " ++ f.position.column.repr ++ "] " ++
    f.cause.message).toList = _
  simp only [String.toList_append, Nat.toList_repr, List.append_assoc]
  rfl

theorem faultLine_injective {f g : ScanFault} (same : faultLine f = faultLine g) :
    (f.cause, f.position.line, f.position.column) =
      (g.cause, g.position.line, g.position.column) := by
  simp only [faultLine, String.toList_append, toList_fault, List.append_assoc] at same
  obtain ⟨lines, same⟩ := append_separator_inj (notMem_toDigits rfl _) (notMem_toDigits rfl _)
    (List.append_cancel_left (List.append_cancel_left same))
  have behind := List.append_cancel_left (List.append_cancel_right same)
  obtain ⟨columns, messages⟩ :=
    append_separator_inj (notMem_toDigits rfl _) (notMem_toDigits rfl _) behind
  have messages := (List.cons.inj messages).2
  rw [ScanCause.message_injective (String.toList_inj.mp messages), toDigits_injective lines,
    toDigits_injective columns]

theorem isLine_faultLine {source : String} {f : ScanFault} (member : f ∈ (scan source).faults) :
    IsLine (faultLine f) := by
  refine ⟨("  • " ++ toString f).toList, ?_, String.toList_append⟩
  have place (n : Nat) : '\n' ∉ Nat.toDigits 10 n := notMem_toDigits rfl n
  rw [String.toList_append, toList_fault]
  simp [place, newline_notMem_message member]

end Table

end SqlConsole
