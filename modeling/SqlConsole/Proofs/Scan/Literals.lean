import SqlConsole.Proofs.Scan.Joining

/-! What strings can say. A text between quote marks, with a backslash in front of each mark within,
is a string of that value, unless the text ends with a backslash: that one takes the closing mark
for its own, and the string is never closed. So no string has a value that ends with a backslash. -/
namespace SqlConsole

/-- The value between quote marks, with a backslash in front of every mark within. -/
def Quote.literal (q : Quote) (value : String) : String :=
  String.ofList (q.char :: (q.escape value.toList ++ [q.char]))

theorem Quote.toList_literal (q : Quote) (value : String) :
    (q.literal value).toList = q.char :: (q.escape value.toList ++ [q.char]) :=
  String.toList_ofList

/-- A backslash at the end and the closing mark behind it are together an escaped mark. -/
theorem Quote.escape_backslash (q : Quote) (text : List Char) :
    q.escape (text ++ ['\\']) ++ [q.char] = q.escape (text ++ [q.char]) := by
  have backslash : q.escape ['\\'] = ['\\'] := q.escape_cons_of_ne (Ne.symm q.char_ne_backslash) []
  have mark : q.escape [q.char] = ['\\', q.char] := q.escape_mark []
  rw [escape_append, escape_append, backslash, mark, List.append_assoc]
  rfl

/-! ## One lexeme -/

theorem lexemes_text {l : Lexeme} (formed : l.WellFormed) (stops : l.StopsAt []) :
    lexemes l.text = [l] := by
  have single := lexemes_append_of_stops formed stops
  rwa [List.append_nil, lexemes] at single

variable (q : Quote) {value : String}

theorem lexemes_literal (ordinary : value.toList.getLast? ≠ some '\\') :
    lexemes (q.literal value).toList = [.quoted q (q.escape value.toList)] := by
  rw [q.toList_literal]
  refine lexemes_text (l := .quoted q _) ⟨noClosingMark_escape q _, ?_⟩ trivial
  rwa [Quote.getLast?_escape]

theorem lexemes_literal_open {text : List Char} (ends : value.toList = text ++ ['\\']) :
    lexemes (q.literal value).toList = [.openQuote q (q.escape (text ++ [q.char]))] := by
  rw [q.toList_literal, ends, q.escape_backslash]
  exact lexemes_text (l := .openQuote q _) (noClosingMark_escape q _) rfl

/-! ## Values -/

/-- Only strings have string tokens. -/
theorem Lexeme.quoted_of_string {l : Lexeme} {p : Position} {t : Token}
    (found : Placed.token? ⟨p, l⟩ = some t) (string : t.kind = .string) :
    ∃ q body, l = .quoted q body ∧ t.value = String.ofList (q.unescape body) := by
  cases l with
  | quoted q body => cases found; exact ⟨q, body, rfl, rfl⟩
  | word letters =>
    cases found
    rcases wordKind_cases (String.ofList letters) with ⟨k, -, kind⟩ | ⟨-, kind⟩
    · cases kind.symm.trans string
    · cases kind.symm.trans string
  | mark m => cases found; rcases m with _ | _ | _ <;> cases string
  | whole | decimal => cases found; cases string
  | _ => cases found

theorem scan_string_value {source : String} {t : Token} (member : t ∈ (scan source).tokens)
    (string : t.kind = .string) : t.value.toList.getLast? ≠ some '\\' := by
  rcases scan_token_cases member with ⟨p, l, formed, found⟩ | rfl
  · obtain ⟨q, body, rfl, value⟩ := l.quoted_of_string found string
    rw [value, String.toList_ofList, Quote.getLast?_unescape formed.1]
    exact formed.2
  · cases string

/-- Strings stand for exactly the texts that do not end with a backslash. Such a text, written
between marks of either sort, is scanned as one string with this value and nothing else. A text
that does end with one gives no token, and only the fault of a string that is never closed. And
whatever is scanned, the value of a string does not end with a backslash. -/
theorem scan_literal (q : Quote) (value : String) :
    let behind := endToken (Position.start.after (q.literal value).toList)
    (value.toList.getLast? ≠ some '\\' →
      (scan (q.literal value)).faults = [] ∧
      (scan (q.literal value)).tokens = [⟨.string, value, ⟨1, 1, 0⟩, none⟩, behind]) ∧
    (value.toList.getLast? = some '\\' →
      (scan (q.literal value)).tokens = [behind] ∧
      (scan (q.literal value)).faults = [⟨.unterminatedString, ⟨1, 1, 0⟩⟩]) ∧
    ∀ source, ∀ t ∈ (scan source).tokens, t.kind = .string →
      t.value.toList.getLast? ≠ some '\\' := by
  intro behind
  refine ⟨fun ordinary => ?_, fun backslash => ?_, fun source t => scan_string_value⟩
  · rw [scan, placedLexemes, lexemes_literal q ordinary]
    refine ⟨rfl, ?_⟩
    simp only [place, List.filterMap_cons, List.filterMap_nil, Placed.token?, q.unescape_escape,
      String.ofList_toList]
    rfl
  · obtain ⟨text, ends⟩ := List.getLast?_eq_some_iff.mp backslash
    rw [scan, placedLexemes, lexemes_literal_open q ends]
    exact ⟨rfl, rfl⟩

/-- A path with a mark in it, of a file and of a folder. The folder's ends with a backslash. -/
theorem scan_literal_paths :
    let file := "C:\\it's"
    let folder := "C:\\it's\\"
    let t : Token := ⟨.string, file, ⟨1, 1, 0⟩, none⟩
    file.toList.getLast? ≠ some '\\' ∧ folder.toList.getLast? = some '\\' ∧
    (scan (Quote.single.literal file)).tokens = [t, endToken ⟨1, 11, 10⟩] ∧
    (scan (Quote.single.literal folder)).faults = [⟨.unterminatedString, ⟨1, 1, 0⟩⟩] ∧
    t ∈ (scan (Quote.single.literal file)).tokens ∧ t.kind = .string ∧
    t.value.toList.getLast? ≠ some '\\' := by
  intro file folder t
  have ordinary : file.toList.getLast? ≠ some '\\' := by decide
  have backslash : folder.toList.getLast? = some '\\' := by decide
  obtain ⟨closed, -, values⟩ := scan_literal .single file
  obtain ⟨-, never, -⟩ := scan_literal .single folder
  have place : Position.start.after (Quote.single.literal file).toList = ⟨1, 11, 10⟩ := by
    decide +kernel
  have tokens := (closed ordinary).2
  rw [place] at tokens
  have member : t ∈ (scan (Quote.single.literal file)).tokens := by
    rw [tokens]
    exact List.mem_cons_self
  exact ⟨ordinary, backslash, tokens, (never backslash).2, member, rfl, values _ t member rfl⟩

end SqlConsole
