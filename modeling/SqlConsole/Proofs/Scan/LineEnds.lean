import SqlConsole.Proofs.Lexeme.Stopping
import SqlConsole.Proofs.Scan.Positions

/-! Two ways to end a line: with a newline alone, or with a carriage return in front of it. The
return is a blank between lexemes, one more character within a string or a comment, and the last
character of a line comment. It stands where its line ends anyway, so it moves nothing but the
offsets behind it. -/
namespace SqlConsole

/-- The text with a carriage return in front of every newline. -/
def withReturns (text : List Char) : List Char :=
  text.flatMap fun c => if c = '\n' then ['\r', '\n'] else [c]

/-- One character more for every line that has ended in front of the place. -/
def Position.returned (p : Position) : Position := ⟨p.line, p.column, p.offset + (p.line - 1)⟩

def Token.returned (t : Token) : Token :=
  { t with value := String.ofList (withReturns t.value.toList), position := t.position.returned }

def ScanFault.returned (f : ScanFault) : ScanFault := { f with position := f.position.returned }

/-! ## Texts -/

theorem withReturns_newline (text : List Char) :
    withReturns ('\n' :: text) = '\r' :: '\n' :: withReturns text := rfl

theorem withReturns_cons {c : Char} (inLine : c ≠ '\n') (text : List Char) :
    withReturns (c :: text) = c :: withReturns text := by
  simp [withReturns, inLine]

theorem withReturns_append (first second : List Char) :
    withReturns (first ++ second) = withReturns first ++ withReturns second :=
  List.flatMap_append

theorem withReturns_of_notMem {text : List Char} (oneLine : '\n' ∉ text) :
    withReturns text = text := by
  induction text with
  | nil => rfl
  | cons c text ih =>
    obtain ⟨inLine, oneLine⟩ := List.ne_and_not_mem_of_not_mem_cons oneLine
    rw [withReturns_cons (Ne.symm inLine), ih oneLine]

/-- The text begins as before, unless it begins with a newline. -/
theorem head?_withReturns (text : List Char) :
    (withReturns text).head? = text.head?.map fun c => if c = '\n' then '\r' else c := by
  cases text with
  | nil => rfl
  | cons c text =>
    by_cases newline : c = '\n'
    · rw [newline]
      rfl
    · simp [withReturns_cons newline, newline]

theorem getLast?_withReturns (text : List Char) :
    (withReturns text).getLast? = text.getLast? := by
  rcases List.eq_nil_or_concat text with rfl | ⟨ahead, c, rfl⟩
  · rfl
  · by_cases newline : c = '\n' <;> simp [withReturns, newline]

theorem noCommentEnd_withReturns {text : List Char} (inside : NoCommentEnd text) :
    NoCommentEnd (withReturns text) := by
  induction text with
  | nil => exact noCommentEnd_nil
  | cons c text ih =>
    obtain ⟨here, later⟩ := noCommentEnd_cons.mp inside
    by_cases newline : c = '\n'
    · -- a return stands between a star and the newline, and neither of them is a slash
      rw [newline, withReturns_newline]
      simp [noCommentEnd_cons, ih later]
    · rw [withReturns_cons newline]
      refine noCommentEnd_cons.mpr ⟨?_, ih later⟩
      rintro ⟨star, slash⟩
      rw [head?_withReturns, Option.map_eq_some_iff] at slash
      obtain ⟨d, first, same⟩ := slash
      split at same
      · cases same
      · exact here ⟨star, same ▸ first⟩

theorem Quote.commutes_withReturns (q : Quote) : q.Commutes withReturns := by
  have newline : q.char ≠ '\n' := by cases q <;> decide
  have back : q.char ≠ '\r' := by cases q <;> decide
  refine commutes_flatMap (if_neg newline) rfl fun c ordinary => ?_
  split
  · simp [newline, back]
  · simp [ordinary.symm]

/-! ## Lexemes -/

namespace Lexeme

/-- The lexeme with returns in its own lines. Line comments and blanks are left as they are. -/
def returned : Lexeme → Lexeme
  | blockComment body => blockComment (withReturns body)
  | openComment body => openComment (withReturns body)
  | quoted q body => quoted q (withReturns body)
  | openQuote q body => openQuote q (withReturns body)
  | l => l

/-- The lexeme ends with its line, or is the newline that ends it. -/
def EndsLine : Lexeme → Prop
  | lineComment _ => True
  | blank c => c = '\n'
  | _ => False

variable {l : Lexeme} {behind : List Char}

theorem newline_notMem_word {letters : List Char} (formed : (word letters).WellFormed) :
    '\n' ∉ letters := by
  obtain ⟨c, more, rfl, start, parts⟩ := formed
  intro newline
  have all : ∀ d ∈ c :: more, isWordPart d = true :=
    List.forall_mem_cons.mpr ⟨isWordPart_of_isWordStart start, parts⟩
  exact absurd (all _ newline) (by decide)

theorem newline_notMem_decimal {first second : List Char}
    (formed : (decimal first second).WellFormed) : '\n' ∉ first ++ '.' :: second := by
  simp [Reading.newline_notMem_digits formed.1, Reading.newline_notMem_digits formed.2]

theorem newline_notMem_mark (m : Mark) : '\n' ∉ m.text := by
  rcases m with ⟨_ | _⟩ | ⟨_ | _⟩ | _ <;> decide

theorem text_returned (formed : l.WellFormed) (plain : ¬ l.EndsLine) :
    l.returned.text = withReturns l.text := by
  cases l with
  | blank c =>
    have inLine : c ≠ '\n' := plain
    exact (withReturns_cons inLine []).symm
  | lineComment body => exact absurd trivial plain
  | blockComment body =>
    change _ = '/' :: '*' :: withReturns (body ++ ['*', '/'])
    rw [withReturns_append]
    rfl
  | openComment body => rfl
  | quoted q body =>
    have mark : q.char ≠ '\n' := by cases q <;> decide
    rw [text, withReturns_cons mark, withReturns_append, withReturns_cons mark]
    rfl
  | openQuote q body =>
    have mark : q.char ≠ '\n' := by cases q <;> decide
    exact (withReturns_cons mark body).symm
  | whole digits =>
    exact (withReturns_of_notMem (Reading.newline_notMem_digits formed)).symm
  | decimal first second => exact (withReturns_of_notMem (newline_notMem_decimal formed)).symm
  | word letters => exact (withReturns_of_notMem (newline_notMem_word formed)).symm
  | mark m => exact (withReturns_of_notMem (newline_notMem_mark m)).symm
  | stray c =>
    have inLine : c ≠ '\n' := by
      rintro rfl
      exact absurd formed.1 (by decide)
    exact (withReturns_cons inLine []).symm

theorem WellFormed.returned (formed : l.WellFormed) : l.returned.WellFormed := by
  cases l with
  | blockComment body =>
    have inside := noCommentEnd_withReturns formed
    rwa [withReturns_append] at inside
  | openComment body => exact noCommentEnd_withReturns formed
  | quoted q body =>
    refine ⟨q.commutes_withReturns.noClosingMark formed.1, ?_⟩
    rw [getLast?_withReturns]
    exact formed.2
  | openQuote q body => exact q.commutes_withReturns.noClosingMark formed
  | blank | lineComment | whole | decimal | word | mark | stray => exact formed

theorem noFurther_return : NoFurther '\n' '\r' :=
  ⟨fun _ => rfl, fun _ => rfl, fun _ _ => by simp [pairs], nofun⟩

/-- The first character is the same, or a return where a newline was. -/
theorem exists_noFurther_withReturns (behind : List Char) :
    ∀ d ∈ (withReturns behind).head?, ∃ c ∈ behind.head?, NoFurther c d := by
  intro d first
  rw [head?_withReturns, Option.mem_def, Option.map_eq_some_iff] at first
  obtain ⟨c, first, rfl⟩ := first
  refine ⟨c, first, ?_⟩
  split
  next newline => exact newline ▸ noFurther_return
  next => exact .refl c

theorem stopsAsSoon_withReturns (behind : List Char) :
    StopsAsSoon behind (withReturns behind) := by
  refine ⟨?_, exists_noFurther_withReturns behind, fun point => ?_⟩
  · rintro rfl
    rfl
  · cases behind with
    | nil => cases point
    | cons c behind =>
      by_cases newline : c = '\n'
      · rw [newline] at point
        cases point
      · rw [withReturns_cons newline]
        exact exists_noFurther_withReturns behind

theorem stopsAt_returned : l.returned.StopsAt behind ↔ l.StopsAt behind := by
  cases l <;> exact Iff.rfl

/-- A return stops whatever a newline stops, line comments apart. -/
theorem StopsAt.returned (plain : ¬ l.EndsLine) (stops : l.StopsAt behind) :
    l.returned.StopsAt (withReturns behind) := by
  rw [stopsAt_returned]
  refine stops.of_stopsAsSoon (stopsAsSoon_withReturns behind) ?_
  rintro body rfl
  exact plain trivial

end Lexeme

/-! ## Rows -/

open Lexeme

/-- The lexemes of the text with returns, from those of the text. A line comment takes the return
that ends its line. -/
def returnedRow : List Lexeme → List Lexeme
  | [] => []
  | blank '\n' :: rest => blank '\r' :: blank '\n' :: returnedRow rest
  | lineComment body :: blank '\n' :: rest =>
    lineComment (body ++ ['\r']) :: blank '\n' :: returnedRow rest
  | l :: rest => l.returned :: returnedRow rest

theorem Parted.eq_newline_cons {ls : List Lexeme} {more : List Char} (parted : Parted ls)
    (begins : ls.flatMap Lexeme.text = '\n' :: more) : ls = blank '\n' :: lexemes more := by
  rw [← parted.lexemes_flatMap_text, begins, lexemes, cut_blank rfl]

/-- The row goes on with a newline, with a line comment and its newline, with a line comment that
ends the row, or with any other lexeme. -/
inductive InLines : List Lexeme → Prop where
  | nil : InLines []
  | newline : InLines rest → InLines (blank '\n' :: rest)
  | comment : '\n' ∉ body → InLines rest → InLines (lineComment body :: blank '\n' :: rest)
  | lastComment : '\n' ∉ body → InLines [lineComment body]
  | other : l.WellFormed → l.StopsAt (rest.flatMap Lexeme.text) → ¬ l.EndsLine → InLines rest →
      InLines (l :: rest)

theorem Parted.inLines {ls : List Lexeme} (parted : Parted ls) : InLines ls := by
  fun_induction returnedRow ls with
  | case1 => exact .nil
  | case2 rest ih => exact .newline (ih parted.2.2)
  | case3 body rest ih =>
    obtain ⟨formed, -, -, -, later⟩ := parted
    exact .comment formed (ih later)
  | case4 l rest noNewline noComment ih =>
    obtain ⟨formed, stops, later⟩ := parted
    by_cases plain : l.EndsLine
    · cases l with
      | blank c => exact absurd (congrArg blank plain) noNewline
      | lineComment body =>
        cases begins : rest.flatMap Lexeme.text with
        | nil =>
          obtain rfl : rest = [] := by rw [← later.lexemes_flatMap_text, begins, lexemes]
          exact .lastComment formed
        | cons c more =>
          -- what stops the comment is a newline, and that is a lexeme of its own
          rw [begins] at stops
          obtain rfl : c = '\n' := stops c rfl
          exact absurd (later.eq_newline_cons begins) fun row => noComment body _ rfl row
      | _ => exact plain.elim
    · exact .other formed stops plain (ih later)

theorem returnedRow_cons {l : Lexeme} (plain : ¬ l.EndsLine) (rest : List Lexeme) :
    returnedRow (l :: rest) = l.returned :: returnedRow rest := by
  refine returnedRow.eq_4 l rest ?_ ?_
  · rintro rfl
    exact plain rfl
  · rintro body more rfl
    exact absurd trivial plain

theorem flatMap_text_returnedRow {ls : List Lexeme} (row : InLines ls) :
    (returnedRow ls).flatMap Lexeme.text = withReturns (ls.flatMap Lexeme.text) := by
  induction row with
  | nil => rfl
  | newline _ ih => exact congrArg (fun t => '\r' :: '\n' :: t) ih
  | @comment body rest oneLine _ ih =>
    have inner := withReturns_of_notMem oneLine
    change '-' :: '-' :: ((body ++ ['\r']) ++ '\n' :: (returnedRow rest).flatMap Lexeme.text) =
      '-' :: '-' :: withReturns (body ++ '\n' :: rest.flatMap Lexeme.text)
    rw [withReturns_append, withReturns_newline, inner, ih, List.append_assoc]
    rfl
  | @lastComment body oneLine =>
    have inner := withReturns_of_notMem oneLine
    change '-' :: '-' :: (body ++ []) = '-' :: '-' :: withReturns (body ++ [])
    rw [List.append_nil, inner]
  | other formed _ plain _ ih =>
    rw [returnedRow_cons plain, List.flatMap_cons, List.flatMap_cons, withReturns_append,
      text_returned formed plain, ih]

theorem parted_returnedRow {ls : List Lexeme} (row : InLines ls) : Parted (returnedRow ls) := by
  induction row with
  | nil => trivial
  | newline _ ih => exact ⟨rfl, trivial, rfl, trivial, ih⟩
  | @comment body rest oneLine _ ih =>
    refine ⟨by simp [WellFormed, oneLine], ?_, rfl, trivial, ih⟩
    rintro c ⟨⟩
    rfl
  | lastComment oneLine => exact ⟨oneLine, nofun, trivial⟩
  | other formed stops plain row ih =>
    rw [returnedRow_cons plain]
    refine ⟨formed.returned, ?_, ih⟩
    rw [flatMap_text_returnedRow row]
    exact stops.returned plain

theorem lexemes_withReturns (text : List Char) :
    lexemes (withReturns text) = returnedRow (lexemes text) := by
  have row := (parted_lexemes text).inLines
  have texts := flatMap_text_returnedRow row
  rw [flatMap_text_lexemes] at texts
  rw [← texts, (parted_returnedRow row).lexemes_flatMap_text]

/-! ## Places and what is found there -/

theorem Position.after_withReturns {p : Position} (real : 0 < p.line) (text : List Char) :
    p.returned.after (withReturns text) = (p.after text).returned := by
  induction text generalizing p with
  | nil => rfl
  | cons c text ih =>
    by_cases newline : c = '\n'
    · have step : (p.returned.advance '\r').advance '\n' = (p.advance '\n').returned := by
        simp [advance, returned]
        omega
      rw [newline, withReturns_newline, after_cons, after_cons, step, after_cons]
      exact ih (by simp [advance])
    · have step : p.returned.advance c = (p.advance c).returned := by
        simp [advance, returned, newline]
        omega
      rw [withReturns_cons newline, after_cons, step, after_cons]
      exact ih (by simpa [advance, newline] using real)

theorem Position.line_pos_after {p : Position} (real : 0 < p.line) (text : List Char) :
    0 < (p.after text).line := by
  induction text generalizing p with
  | nil => exact real
  | cons c text ih =>
    refine ih ?_
    by_cases newline : c = '\n' <;> simp [advance, newline, real]

section Found

variable {α : Type} {found : Placed → Option α} {move : α → α}
variable (blanks : ∀ p c, found ⟨p, .blank c⟩ = none)
variable (comments : ∀ p body, found ⟨p, .lineComment body⟩ = none)
variable (moved : ∀ p l, l.WellFormed → ¬ l.EndsLine →
  found ⟨p.returned, l.returned⟩ = (found ⟨p, l⟩).map move)

include blanks comments moved

theorem filterMap_place_returnedRow {ls : List Lexeme} (row : InLines ls) {p : Position}
    (real : 0 < p.line) : (place p.returned (returnedRow ls)).filterMap found =
      ((place p ls).filterMap found).map move := by
  induction row generalizing p with
  | nil => rfl
  | @newline rest _ ih =>
    have step : (p.returned.after ['\r']).after ['\n'] = (p.after ['\n']).returned :=
      Position.after_withReturns real ['\n']
    rw [returnedRow, place, place, place, List.filterMap_cons_none (blanks ..),
      List.filterMap_cons_none (blanks ..), List.filterMap_cons_none (blanks ..), Lexeme.text,
      Lexeme.text, step, ih (p.line_pos_after real _)]
  | @comment body rest oneLine _ ih =>
    -- inside the comment the places differ by its return; behind its newline they agree again
    have row : InLines [lineComment body, blank '\n'] := .comment oneLine .nil
    have step := Position.after_withReturns real
      ([lineComment body, blank '\n'].flatMap Lexeme.text)
    rw [← flatMap_text_returnedRow row] at step
    simp only [returnedRow, List.flatMap_cons, List.flatMap_nil, List.append_nil,
      Position.after_append] at step
    have later := (p.after (lineComment body).text).line_pos_after
      (p.line_pos_after real _) (blank '\n').text
    rw [returnedRow, place, place, place, place, List.filterMap_cons_none (comments ..),
      List.filterMap_cons_none (blanks ..), List.filterMap_cons_none (comments ..),
      List.filterMap_cons_none (blanks ..), step, ih later]
  | @lastComment body oneLine =>
    change (place _ [lineComment body]).filterMap found =
      ((place _ [lineComment body]).filterMap found).map move
    simp only [place, List.filterMap_cons_none (comments ..), List.filterMap_nil, List.map_nil]
  | @other rest l formed _ plain _ ih =>
    rw [returnedRow_cons plain, place, place, List.filterMap_cons, List.filterMap_cons,
      moved p l formed plain, text_returned formed plain, Position.after_withReturns real,
      ih (p.line_pos_after real l.text)]
    cases found ⟨p, l⟩ <;> rfl

end Found

theorem Lexeme.token?_returned {l : Lexeme} (formed : l.WellFormed) (plain : ¬ l.EndsLine)
    (p : Position) :
    Placed.token? ⟨p.returned, l.returned⟩ = (Placed.token? ⟨p, l⟩).map Token.returned := by
  have oneLine (same : l.returned = l) : withReturns l.text = l.text := by
    rw [← text_returned formed plain, same]
  cases l with
  | quoted q body =>
    simp [Placed.token?, Lexeme.returned, Token.returned,
      q.commutes_withReturns.unescape formed.1]
  | whole | decimal | word | mark =>
    have value := oneLine rfl
    simp only [Lexeme.text] at value
    simp only [Placed.token?, Lexeme.returned, Token.returned, Lexeme.text, Option.map_some,
      String.toList_ofList, value]
  | blank | lineComment | blockComment | openComment | openQuote | stray => rfl

theorem Lexeme.fault?_returned (l : Lexeme) (p : Position) :
    Placed.fault? ⟨p.returned, l.returned⟩ = (Placed.fault? ⟨p, l⟩).map ScanFault.returned := by
  cases l <;> rfl

theorem Lexeme.token_cases {l : Lexeme} {p : Position} {t : Token} (formed : l.WellFormed)
    (found : Placed.token? ⟨p, l⟩ = some t) :
    t.kind = .string ∨ t.value = String.ofList l.text ∧ '\n' ∉ l.text := by
  cases l with
  | quoted q body =>
    cases found
    exact .inl rfl
  | whole digits =>
    cases found
    exact .inr ⟨rfl, Reading.newline_notMem_digits formed⟩
  | decimal first second =>
    cases found
    exact .inr ⟨rfl, newline_notMem_decimal formed⟩
  | word letters =>
    cases found
    exact .inr ⟨rfl, newline_notMem_word formed⟩
  | mark m =>
    cases found
    exact .inr ⟨rfl, newline_notMem_mark m⟩
  | _ => cases found

/-- No other token goes over several lines. -/
theorem string_of_newline_mem {source : String} {t : Token} (member : t ∈ (scan source).tokens)
    (newline : '\n' ∈ t.value.toList) : t.kind = .string := by
  rcases scan_token_cases member with ⟨p, l, formed, found⟩ | rfl
  · rcases l.token_cases formed found with string | ⟨value, oneLine⟩
    · exact string
    · rw [value, String.toList_ofList] at newline
      exact absurd newline oneLine
  · cases newline

/-- With a carriage return in front of every newline a text gives as many tokens and as many faults
as without: the same kinds, numbers and causes in the same lines and columns, the end token
included. The offsets grow by one for every line that has ended before, and values get the returns
too, which changes none but those of strings that go over several lines. -/
theorem scan_withReturns (source : String) :
    (scan (String.ofList (withReturns source.toList))).tokens =
      (scan source).tokens.map Token.returned ∧
    (scan (String.ofList (withReturns source.toList))).faults =
      (scan source).faults.map ScanFault.returned ∧
    ∀ t ∈ (scan source).tokens,
      t.returned.value = t.value ∨ t.kind = .string ∧ '\n' ∈ t.value.toList := by
  have row := (parted_lexemes source.toList).inLines
  have first : 0 < Position.start.line := Nat.one_pos
  refine ⟨?_, ?_, fun t member => ?_⟩
  · simp only [scan, placedLexemes, String.toList_ofList, lexemes_withReturns, List.map_append]
    congr 1
    · exact filterMap_place_returnedRow (fun _ _ => rfl) (fun _ _ => rfl)
        (fun p l formed plain => l.token?_returned formed plain p) row first
    · exact congrArg (fun p => [endToken p]) (Position.after_withReturns first source.toList)
  · simp only [scan, placedLexemes, String.toList_ofList, lexemes_withReturns]
    exact filterMap_place_returnedRow (fun _ _ => rfl) (fun _ _ => rfl)
      (fun p l _ _ => l.fault?_returned p) row first
  · by_cases newline : '\n' ∈ t.value.toList
    · exact .inr ⟨string_of_newline_mem member newline, newline⟩
    · left
      rw [Token.returned, withReturns_of_notMem newline, String.ofList_toList]

end SqlConsole
