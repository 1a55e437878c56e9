import SqlConsole.Json.Printer
import SqlConsole.Proofs.Json.Numerals

/-! A printed value is read as the value. Each piece of the printed form is read up to its own end
whatever follows, so the pieces can be put together along the value. -/
namespace SqlConsole

namespace Json

open Reader

/-! ## Strings -/

namespace Reader

open Toml.Quoted (hexRun? hexValue?)

variable {text rest : List Char} {c : Char}

theorem string?_mark (rest : List Char) : string? ('"' :: rest) = some ([], rest) := by
  rw [string?]
  rfl

theorem string?_escape (read : escape? text = some (c, rest)) :
    string? ('\\' :: text) = (string? rest).map fun (body, behind) => (c :: body, behind) := by
  have notMark : '\\' ≠ '"' := by decide
  rw [string?, if_neg notMark, if_pos rfl]
  split
  next none => exact absurd (read.symm.trans none) (by simp)
  next found =>
    obtain ⟨rfl, rfl⟩ := Prod.mk.inj (Option.some.inj (read.symm.trans found))
    rfl

theorem string?_plain (notMark : c ≠ '"') (notEscape : c ≠ '\\') (visible : ¬ c.toNat < 32) :
    string? (c :: rest) = (string? rest).map fun (body, behind) => (c :: body, behind) := by
  rw [string?, if_neg notMark, if_neg notEscape, if_neg visible]

theorem hexValue?_hexDigit (n : Nat) : hexValue? (hexDigit n) = some (n % 16) := by
  have digits : ∀ d < 16, hexValue? (hexDigit d) = some d := by decide
  have same : hexDigit n = hexDigit (n % 16) := by simp [hexDigit]
  rw [same, digits _ (Nat.mod_lt n (by decide))]

theorem coded?_hexDigit (control : c.toNat < 32) (rest : List Char) :
    coded? ('0' :: '0' :: hexDigit (c.toNat / 16) :: hexDigit c.toNat :: rest) =
      some (c, rest) := by
  have value : 16 * (c.toNat / 16 % 16) + c.toNat % 16 = c.toNat := by omega
  have zero : hexValue? '0' = some 0 := rfl
  have valid : c.toNat.isValidChar := c.valid
  simp only [coded?, hexRun?, hexValue?_hexDigit, zero, Option.pure_def, Option.bind_eq_bind,
    Option.bind_some, Nat.mul_zero, Nat.zero_add, Nat.add_zero, value, if_pos valid,
    Char.ofNat_toNat]

/-- Every character stands for itself or is escaped. -/
theorem escapeChar_reads (c : Char) :
    (escapeChar c = [c] ∧ c ≠ '"' ∧ c ≠ '\\' ∧ ¬ c.toNat < 32) ∨
      ∃ code, escapeChar c = '\\' :: code ∧ ∀ rest, escape? (code ++ rest) = some (c, rest) := by
  by_cases named : c ∈ ['"', '\\', '\n', '\r', '\t', '\x08', '\x0c']
  · refine .inr ?_
    simp only [List.mem_cons, List.not_mem_nil, or_false] at named
    rcases named with rfl | rfl | rfl | rfl | rfl | rfl | rfl <;> exact ⟨_, rfl, fun _ => rfl⟩
  · simp only [List.mem_cons, List.not_mem_nil, or_false, not_or] at named
    obtain ⟨mark, backslash, newline, return_, tab, backspace, formFeed⟩ := named
    simp only [escapeChar, mark, backslash, newline, return_, tab, backspace, formFeed, if_false]
    split
    next control => exact .inr ⟨_, rfl, fun rest => coded?_hexDigit control rest⟩
    next visible => exact .inl ⟨rfl, mark, backslash, visible⟩

theorem string?_escapeChar (c : Char) (rest : List Char) :
    string? (escapeChar c ++ rest) =
      (string? rest).map fun (body, behind) => (c :: body, behind) := by
  rcases escapeChar_reads c with ⟨same, mark, backslash, visible⟩ | ⟨code, escaped, read⟩
  · rw [same]
    exact string?_plain mark backslash visible
  · rw [escaped]
    exact string?_escape (read rest)

theorem string?_flatMap (text rest : List Char) :
    string? (text.flatMap escapeChar ++ '"' :: rest) = some (text, rest) := by
  induction text with
  | nil => exact string?_mark rest
  | cons c text ih =>
    rw [List.flatMap_cons, List.append_assoc, string?_escapeChar, ih]
    rfl

/-! ## White space -/

variable {gap : List Char}

theorem isWhite_cases (white : isWhite c = true) : c = ' ' ∨ c = '\t' ∨ c = '\n' ∨ c = '\r' := by
  simpa [isWhite, or_assoc] using white

theorem isWhite_of_isDigit (digit : isDigit c = true) : isWhite c = false := by
  by_contra white
  rcases isWhite_cases (Bool.eq_true_of_not_eq_false white) with rfl | rfl | rfl | rfl <;>
    exact absurd digit (by decide)

theorem skipWhite_append (white : ∀ c ∈ gap, isWhite c = true)
    (stop : ∀ c ∈ rest.head?, isWhite c = false) : skipWhite (gap ++ rest) = rest :=
  (takeWhile_of_stop white stop).2

theorem skipWhite_eq (stop : ∀ c ∈ rest.head?, isWhite c = false) : skipWhite rest = rest :=
  @skipWhite_append rest [] (fun _ member => absurd member List.not_mem_nil) stop

theorem skipWhite_append_cons (white : ∀ d ∈ gap, isWhite d = true) (ink : isWhite c = false)
    (rest : List Char) : skipWhite (gap ++ c :: rest) = c :: rest := by
  refine skipWhite_append white ?_
  rintro d ⟨⟩
  exact ink

theorem skipWhite_cons (ink : isWhite c = false) (rest : List Char) :
    skipWhite (c :: rest) = c :: rest :=
  List.dropWhile_cons_of_neg (by simp [ink])

theorem EndsNumeral.behind_gap (white : ∀ c ∈ gap, isWhite c = true) (ends : EndsNumeral rest) :
    EndsNumeral (gap ++ rest) := by
  cases gap with
  | nil => exact ends
  | cons c gap =>
    rintro d ⟨⟩
    rcases isWhite_cases (white c List.mem_cons_self) with rfl | rfl | rfl | rfl <;> decide

/-! ## One step of reading -/

theorem front_of_unsigned? {result : ℚ × List Char} (read : unsigned? (c :: text) = some result) :
    isDigit c = true := by
  by_contra other
  have none : digits? (c :: text) = none := by
    rw [digits?, List.takeWhile_cons_of_neg other]
  simp [unsigned?, whole?, none] at read

theorem front_of_number? {result : ℚ × List Char} (read : number? (c :: text) = some result) :
    c = '-' ∨ isDigit c = true := by
  unfold number? at read
  split at read
  next same => exact .inl (List.cons.inj same).1
  next => exact .inr (front_of_unsigned? read)

theorem value?_number {value : ℚ} (read : number? text = some (value, rest)) (fuel : Nat) :
    value? (fuel + 1) text = some (.number value, rest) := by
  cases text with
  | nil => cases read
  | cons c text =>
    have front := front_of_number? read
    have other : ∀ d, d ≠ '-' → isDigit d = false → c ≠ d := by
      rintro d notSign notDigit rfl
      rcases front with sign | digit
      · exact notSign sign
      · exact absurd digit (by simp [notDigit])
    rw [value?, if_neg (other '"' (by decide) rfl), if_neg (other '[' (by decide) rfl),
      if_neg (other '\x7b' (by decide) rfl), if_neg (other 'n' (by decide) rfl),
      if_neg (other 't' (by decide) rfl), if_neg (other 'f' (by decide) rfl), read]
    rfl

section Steps

variable {fuel : Nat} {behind more start : List Char} {content : Content} {items : List Content}
  {key : List Char} {members : List (String × Content)}

theorem value?_string (read : string? text = some (key, rest)) :
    value? (fuel + 1) ('"' :: text) = some (.string (String.ofList key), rest) := by
  rw [value?, if_pos rfl, read]
  rfl

theorem value?_array (begins : skipWhite text = c :: start) (item : c ≠ ']')
    (read : items? fuel (c :: start) = some (items, rest)) :
    value? (fuel + 1) ('[' :: text) = some (.array items, rest) := by
  have notMark : '[' ≠ '"' := by decide
  rw [value?, if_neg notMark, if_pos rfl, begins]
  split
  next same => exact absurd (List.cons.inj same).1 item
  next => rw [read, Option.map_some]

theorem value?_object (begins : skipWhite text = '"' :: start)
    (read : members? fuel ('"' :: start) = some (members, rest)) :
    value? (fuel + 1) ('\x7b' :: text) = some (.object members, rest) := by
  have notMark : '\x7b' ≠ '"' := by decide
  have notBracket : '\x7b' ≠ '[' := by decide
  rw [value?, if_neg notMark, if_neg notBracket, if_pos rfl, begins]
  exact congrArg (Option.map _) read

theorem items?_last (read : value? fuel text = some (content, behind))
    (closed : skipWhite behind = ']' :: rest) :
    items? (fuel + 1) text = some ([content], rest) := by
  simp [items?, read, closed]

theorem items?_more (read : value? fuel text = some (content, behind))
    (parted : skipWhite behind = ',' :: more)
    (readMore : items? fuel (skipWhite more) = some (items, rest)) :
    items? (fuel + 1) text = some (content :: items, rest) := by
  simp [items?, read, parted, readMore]

variable (readKey : string? text = some (key, start)) (named : skipWhite start = ':' :: behind)

include readKey named

theorem members?_last (read : value? fuel (skipWhite behind) = some (content, more))
    (closed : skipWhite more = '\x7d' :: rest) :
    members? (fuel + 1) ('"' :: text) = some ([(String.ofList key, content)], rest) := by
  simp [members?, readKey, named, read, closed]

theorem members?_more {last : List Char}
    (read : value? fuel (skipWhite behind) = some (content, more))
    (parted : skipWhite more = ',' :: last)
    (readMore : members? fuel (skipWhite last) = some (members, rest)) :
    members? (fuel + 1) ('"' :: text) =
      some ((String.ofList key, content) :: members, rest) := by
  simp [members?, readKey, named, read, parted, readMore]

end Steps

end Reader

/-! ## Forms of a value -/

/-- The text begins with a character other than white space and the closing bracket. -/
def Front (text : List Char) : Prop :=
  ∃ c more, text = c :: more ∧ isWhite c = false ∧ c ≠ ']'

/-- The text is read as the content, whatever follows. -/
structure Denotes (text : List Char) (content : Content) : Prop where
  front : Front text
  read : ∀ fuel rest, 2 * text.length ≤ fuel → EndsNumeral rest →
    value? fuel (text ++ rest) = some (content, rest)

/-- The text is read as the items up to the closing bracket. -/
structure DenotesItems (text : List Char) (items : List Content) : Prop where
  front : Front text
  read : ∀ fuel rest, 2 * text.length ≤ fuel → items? fuel (text ++ rest) = some (items, rest)

/-- The text is read as the members up to the closing brace. -/
structure DenotesMembers (text : List Char) (members : List (String × Content)) : Prop where
  front : ∃ more, text = '"' :: more
  read : ∀ fuel rest, 2 * text.length ≤ fuel →
    members? fuel (text ++ rest) = some (members, rest)

section Forms

variable {text rest gap : List Char} {content : Content}

namespace Front

variable (front : Front text)

include front

theorem stop : ∀ c ∈ (text ++ rest).head?, isWhite c = false := by
  obtain ⟨c, more, rfl, ink, -⟩ := front
  rintro d ⟨⟩
  exact ink

theorem append (behind : List Char) : Front (text ++ behind) := by
  obtain ⟨c, more, rfl, ink⟩ := front
  exact ⟨c, more ++ behind, rfl, ink⟩

theorem length_pos : 0 < text.length := by
  obtain ⟨c, more, rfl, -⟩ := front
  exact Nat.succ_pos _

end Front

namespace Denotes

/-- A value without parts is read in one step. -/
theorem of_step (front : Front text) (read : ∀ fuel rest, EndsNumeral rest →
    value? (fuel + 1) (text ++ rest) = some (content, rest)) : Denotes text content where
  front := front
  read fuel rest enough ends := by
    have := front.length_pos
    cases fuel with
    | zero => omega
    | succ fuel => exact read fuel rest ends

theorem null : Denotes "null".toList .null :=
  of_step ⟨'n', _, rfl, rfl, by decide⟩ fun _ _ _ => rfl

theorem boolean (b : Bool) : Denotes (booleanText b) (.boolean b) := by
  cases b with
  | false => exact of_step ⟨'f', _, rfl, rfl, by decide⟩ fun _ _ _ => rfl
  | true => exact of_step ⟨'t', _, rfl, rfl, by decide⟩ fun _ _ _ => rfl

theorem string (s : String) : Denotes (quote s) (.string s) := by
  refine of_step ⟨'"', _, rfl, rfl, by decide⟩ fun fuel rest _ => ?_
  have read := @value?_string _ rest fuel _ (string?_flatMap s.toList rest)
  rw [String.ofList_toList] at read
  rw [quote, List.cons_append, List.append_assoc]
  exact read

theorem number {value : ℚ}
    (read : ∀ rest, EndsNumeral rest → number? (text ++ rest) = some (value, rest)) :
    Denotes text (.number value) := by
  have front : Front text := by
    have alone := read [] (fun c first => by cases first)
    cases text with
    | nil => cases alone
    | cons c text =>
      refine ⟨c, text, rfl, ?_⟩
      rcases front_of_number? alone with rfl | digit
      · decide
      · refine ⟨isWhite_of_isDigit digit, ?_⟩
        rintro rfl
        cases digit
  exact of_step front fun fuel rest ends => value?_number (read rest ends) fuel

theorem emptyArray : Denotes ['[', ']'] (.array []) :=
  of_step ⟨'[', _, rfl, rfl, by decide⟩ fun _ _ _ => rfl

theorem emptyObject : Denotes ['\x7b', '\x7d'] (.object []) :=
  of_step ⟨'\x7b', _, rfl, rfl, by decide⟩ fun _ _ _ => rfl

end Denotes

/-! ## Rows of items and members -/

theorem endsNumeral_sign {sign : Char} (parts : sign ∈ [',', ']', '\x7d']) (rest : List Char) :
    EndsNumeral (sign :: rest) := by
  rintro c ⟨⟩
  simp only [List.mem_cons, List.not_mem_nil, or_false] at parts
  rcases parts with rfl | rfl | rfl <;> decide

theorem DenotesItems.last (value : Denotes text content) (white : ∀ c ∈ gap, isWhite c = true) :
    DenotesItems (text ++ (gap ++ [']'])) [content] where
  front := value.front.append _
  read fuel rest enough := by
    rw [List.length_append, List.length_append, List.length_singleton] at enough
    obtain ⟨fuel, rfl⟩ : ∃ less, fuel = less + 1 := ⟨fuel - 1, by omega⟩
    have ends : EndsNumeral (']' :: rest) := endsNumeral_sign (by decide) rest
    have read := value.read fuel _ (by omega) (ends.behind_gap white)
    rw [List.append_assoc, List.append_assoc]
    exact items?_last read (skipWhite_append_cons white rfl rest)

theorem DenotesItems.more {items : List Content} {behind : List Char}
    (value : Denotes text content) (row : DenotesItems behind items)
    (white : ∀ c ∈ gap, isWhite c = true) :
    DenotesItems (text ++ ',' :: (gap ++ behind)) (content :: items) where
  front := value.front.append _
  read fuel rest enough := by
    rw [List.length_append, List.length_cons, List.length_append] at enough
    obtain ⟨fuel, rfl⟩ : ∃ less, fuel = less + 1 := ⟨fuel - 1, by omega⟩
    have ends : EndsNumeral (',' :: (gap ++ behind ++ rest)) := endsNumeral_sign (by decide) _
    have read := value.read fuel _ (by omega) ends
    have readMore := row.read fuel rest (by omega)
    rw [← skipWhite_append white row.front.stop, ← List.append_assoc] at readMore
    rw [List.append_assoc]
    exact items?_more read (skipWhite_cons rfl _) readMore

theorem DenotesItems.array {items : List Content} (row : DenotesItems text items)
    (white : ∀ c ∈ gap, isWhite c = true) : Denotes ('[' :: (gap ++ text)) (.array items) where
  front := ⟨'[', _, rfl, rfl, by decide⟩
  read fuel rest enough _ := by
    rw [List.length_cons, List.length_append] at enough
    obtain ⟨fuel, rfl⟩ : ∃ less, fuel = less + 1 := ⟨fuel - 1, by omega⟩
    have read := row.read fuel rest (by omega)
    have begins := skipWhite_append white (@Front.stop text rest row.front)
    obtain ⟨c, more, rfl, -, item⟩ := row.front
    rw [List.cons_append, List.append_assoc]
    exact value?_array begins item read

theorem quote_append (key : String) (rest : List Char) :
    quote key ++ rest = '"' :: (key.toList.flatMap escapeChar ++ '"' :: rest) := by
  rw [quote, List.cons_append, List.append_assoc, List.singleton_append]

section Members

variable {lead : List Char} (key : String) (value : Denotes text content)
  (before : ∀ c ∈ lead, isWhite c = true) (white : ∀ c ∈ gap, isWhite c = true)

include value before white

theorem DenotesMembers.last :
    DenotesMembers (quote key ++ ':' :: (lead ++ (text ++ (gap ++ ['\x7d']))))
      [(key, content)] where
  front := ⟨_, quote_append key _⟩
  read fuel rest enough := by
    simp only [List.length_append, List.length_cons, List.length_nil] at enough
    obtain ⟨fuel, rfl⟩ : ∃ less, fuel = less + 1 := ⟨fuel - 1, by omega⟩
    have ends : EndsNumeral ('\x7d' :: rest) := endsNumeral_sign (by decide) rest
    have read := value.read fuel _ (by omega) (ends.behind_gap white)
    rw [← skipWhite_append before value.front.stop] at read
    simp only [List.append_assoc, List.cons_append, List.nil_append, quote_append]
    have whole := members?_last (string?_flatMap key.toList _) (skipWhite_cons rfl _)
      read (skipWhite_append_cons white rfl rest)
    rw [String.ofList_toList] at whole
    exact whole

theorem DenotesMembers.more {members : List (String × Content)} {behind : List Char}
    (row : DenotesMembers behind members) :
    DenotesMembers (quote key ++ ':' :: (lead ++ (text ++ ',' :: (gap ++ behind))))
      ((key, content) :: members) where
  front := ⟨_, quote_append key _⟩
  read fuel rest enough := by
    simp only [List.length_append, List.length_cons] at enough
    obtain ⟨fuel, rfl⟩ : ∃ less, fuel = less + 1 := ⟨fuel - 1, by omega⟩
    have ends : EndsNumeral (',' :: (gap ++ (behind ++ rest))) := endsNumeral_sign (by decide) _
    have read := value.read fuel _ (by omega) ends
    rw [← skipWhite_append before value.front.stop] at read
    have readMore := row.read fuel rest (by omega)
    have stop : ∀ c ∈ (behind ++ rest).head?, isWhite c = false := by
      obtain ⟨more, rfl⟩ := row.front
      rintro c ⟨⟩
      rfl
    rw [← skipWhite_append white stop] at readMore
    simp only [List.append_assoc, List.cons_append, quote_append]
    have whole := members?_more (string?_flatMap key.toList _) (skipWhite_cons rfl _)
      read (skipWhite_cons rfl _) readMore
    rw [String.ofList_toList] at whole
    exact whole

end Members

theorem DenotesMembers.object {members : List (String × Content)}
    (row : DenotesMembers text members) (white : ∀ c ∈ gap, isWhite c = true) :
    Denotes ('\x7b' :: (gap ++ text)) (.object members) where
  front := ⟨'\x7b', _, rfl, rfl, by decide⟩
  read fuel rest enough _ := by
    rw [List.length_cons, List.length_append] at enough
    obtain ⟨fuel, rfl⟩ : ∃ less, fuel = less + 1 := ⟨fuel - 1, by omega⟩
    have read := row.read fuel rest (by omega)
    obtain ⟨more, rfl⟩ := row.front
    rw [List.cons_append, List.append_assoc]
    exact value?_object (skipWhite_append_cons white rfl _) read

theorem Denotes.read? (value : Denotes text content) (white : ∀ c ∈ gap, isWhite c = true) :
    read? (String.ofList (text ++ gap)) = some content := by
  have ends : EndsNumeral ([] : List Char) := fun c first => by cases first
  have enough : 2 * text.length ≤ 2 * (text ++ gap).length + 1 := by
    rw [List.length_append]
    omega
  have read := value.read _ _ enough (ends.behind_gap white)
  have blank : skipWhite (gap ++ []) = [] := skipWhite_append white fun c first => by cases first
  rw [List.append_nil] at read blank
  simp only [Json.read?, String.toList_ofList, skipWhite_eq value.front.stop, read]
  simp [blank]

end Forms

/-! ## Printed values -/

mutual

/-- What a value says. A double that is not a number says nothing. -/
def content : Json → Content
  | null => .null
  | boolean b => .boolean b
  | natural n => .number n
  | real x => if x.isFinite then .number x.decimal else .null
  | string s => .string s
  | array items => .array (contents items)
  | object members => .object (memberContents members)

def contents : List Json → List Content
  | [] => []
  | x :: rest => content x :: contents rest

def memberContents : List (String × Json) → List (String × Content)
  | [] => []
  | (key, x) :: rest => (key, content x) :: memberContents rest

end

theorem isWhite_newline (depth : Nat) : ∀ c ∈ newline depth, isWhite c = true := by
  intro c member
  rcases List.mem_cons.mp member with rfl | spaces
  · rfl
  · rw [List.eq_of_mem_replicate spaces]
    rfl

theorem isWhite_blank : ∀ c ∈ [' '], isWhite c = true := List.forall_mem_singleton.mpr rfl

theorem denotes_numeral (x : Binary64) :
    Denotes (numeral x) (if x.isFinite then .number x.decimal else .null) := by
  unfold numeral
  split
  next => exact .number fun rest ends => number?_ofBinary64 x ends
  next => exact .null

mutual

theorem denotes_pretty (depth : Nat) : ∀ x : Json, Denotes (pretty depth x) (content x)
  | null => .null
  | boolean b => .boolean b
  | natural n => .number fun _ ends => number?_toDigits n ends
  | real x => denotes_numeral x
  | string s => .string s
  | array [] => .emptyArray
  | array (x :: rest) => by
    have row := denotes_prettyItems (depth + 1) depth (denotes_pretty (depth + 1) x) rest
    have whole := row.array (isWhite_newline (depth + 1))
    simpa only [pretty, content, contents, List.append_assoc] using whole
  | object [] => .emptyObject
  | object ((key, x) :: rest) => by
    have row := denotes_prettyMembers (depth + 1) depth key (denotes_pretty (depth + 1) x) rest
    have whole := row.object (isWhite_newline (depth + 1))
    simpa only [pretty, content, memberContents, List.append_assoc, List.cons_append] using whole

theorem denotes_prettyItems (depth outer : Nat) {text : List Char} {first : Content}
    (value : Denotes text first) : ∀ items : List Json,
    DenotesItems (text ++ (prettyItems depth items ++ (newline outer ++ [']'])))
      (first :: contents items)
  | [] => .last value (isWhite_newline outer)
  | x :: rest => by
    have row := denotes_prettyItems depth outer (denotes_pretty depth x) rest
    have whole := DenotesItems.more value row (isWhite_newline depth)
    simpa only [prettyItems, contents, List.append_assoc, List.cons_append] using whole

theorem denotes_prettyMembers (depth outer : Nat) (key : String) {text : List Char}
    {first : Content} (value : Denotes text first) : ∀ members : List (String × Json),
    DenotesMembers
      (quote key ++ ':' :: ' ' :: (text ++
        (prettyMembers depth members ++ (newline outer ++ ['\x7d']))))
      ((key, first) :: memberContents members)
  | [] => .last key value isWhite_blank (isWhite_newline outer)
  | (next, x) :: rest => by
    have row := denotes_prettyMembers depth outer next (denotes_pretty depth x) rest
    have whole := DenotesMembers.more key value isWhite_blank
      (isWhite_newline depth) row
    simpa only [prettyMembers, memberContents, List.append_assoc, List.cons_append,
      List.nil_append] using whole

end

/-- A printed value is read as the value, also with white space behind it. -/
theorem read?_pretty (x : Json) {gap : List Char} (white : ∀ c ∈ gap, isWhite c = true) :
    read? (String.ofList (pretty 0 x ++ gap)) = some (content x) :=
  (denotes_pretty 0 x).read? white

end Json

end SqlConsole
