/-! Strings of a configuration document. There are four forms: basic strings with escapes and
literal strings without, each on one line or between triple marks over several. Every reader
here starts behind the opening mark and gives the text and what follows the closing mark. -/
namespace SqlConsole

namespace Toml

/-- Characters that stand for themselves in strings and comments: all but control characters,
of which only the tab is admitted. -/
def isPlain (c : Char) : Bool := c = '\t' || (32 ≤ c.toNat && c.toNat ≠ 127)

def isBlankChar (c : Char) : Bool := c = ' ' || c = '\t'

namespace Quoted

def hexValue? (c : Char) : Option Nat :=
  if '0' ≤ c ∧ c ≤ '9' then some (c.toNat - '0'.toNat)
  else if 'a' ≤ c ∧ c ≤ 'f' then some (c.toNat - 'a'.toNat + 10)
  else if 'A' ≤ c ∧ c ≤ 'F' then some (c.toNat - 'A'.toNat + 10)
  else none

/-- Exactly `count` hexadecimal digits behind the value `high` of earlier ones. -/
def hexRun? : Nat → Nat → List Char → Option (Nat × List Char)
  | 0, high, text => some (high, text)
  | _ + 1, _, [] => none
  | count + 1, high, c :: rest => do hexRun? count (16 * high + (← hexValue? c)) rest

/-- The character with the code given by `count` hexadecimal digits. -/
def coded? (count : Nat) (text : List Char) : Option (Char × List Char) := do
  let (code, rest) ← hexRun? count 0 text
  if code.isValidChar then return (Char.ofNat code, rest) else none

/-- The character that an escape stands for, read behind its backslash. -/
def escape? : List Char → Option (Char × List Char)
  | [] => none
  | c :: rest =>
    match c with
    | 'b' => some ('\x08', rest)
    | 't' => some ('\t', rest)
    | 'n' => some ('\n', rest)
    | 'f' => some ('\x0c', rest)
    | 'r' => some ('\r', rest)
    | 'e' => some ('\x1b', rest)
    | '"' => some ('"', rest)
    | '\\' => some ('\\', rest)
    | 'x' => coded? 2 rest
    | 'u' => coded? 4 rest
    | 'U' => coded? 8 rest
    | _ => none

theorem hexRun?_length {count high value : Nat} {text rest : List Char}
    (h : hexRun? count high text = some (value, rest)) : rest.length ≤ text.length := by
  induction count generalizing high text with
  | zero => cases h; exact Nat.le_refl _
  | succ count ih =>
    cases text with
    | nil => cases h
    | cons c text =>
      obtain ⟨digit, _, found⟩ := Option.bind_eq_some_iff.mp h
      exact Nat.le_succ_of_le (ih found)

theorem coded?_length {count : Nat} {text rest : List Char} {c : Char}
    (h : coded? count text = some (c, rest)) : rest.length ≤ text.length := by
  obtain ⟨⟨code, behind⟩, found, valid⟩ := Option.bind_eq_some_iff.mp h
  have shorter := hexRun?_length found
  dsimp only at valid
  split at valid
  · cases valid; exact shorter
  · cases valid

theorem escape?_length {text rest : List Char} {c : Char}
    (h : escape? text = some (c, rest)) : rest.length < text.length := by
  cases text with
  | nil => cases h
  | cons d text =>
    unfold escape? at h
    dsimp only at h
    split at h
    all_goals first
      | exact Nat.lt_succ_of_le (coded?_length h)
      | (cases h; exact Nat.lt_succ_self _)
      | cases h

def basic? (text : List Char) : Option (List Char × List Char) :=
  match text with
  | [] => none
  | c :: rest =>
    if c = '"' then some ([], rest)
    else if c = '\\' then
      match _h : escape? rest with
      | none => none
      | some (d, after) => (basic? after).map fun (body, behind) => (d :: body, behind)
    else if isPlain c then (basic? rest).map fun (body, behind) => (c :: body, behind)
    else none
termination_by text.length
decreasing_by
  · exact Nat.lt_succ_of_lt (escape?_length _h)
  · exact Nat.lt_succ_self _

def literal? : List Char → Option (List Char × List Char)
  | [] => none
  | c :: rest =>
    if c = '\'' then some ([], rest)
    else if isPlain c then (literal? rest).map fun (body, behind) => (c :: body, behind)
    else none

def dropLineEnd : List Char → List Char
  | '\n' :: rest => rest
  | '\r' :: '\n' :: rest => rest
  | text => text

/-- Up to two marks directly behind a closing triple mark still belong to the text. -/
def closing (mark : Char) : List Char → List Char × List Char
  | a :: b :: rest =>
    if a = mark ∧ b = mark then ([mark, mark], rest)
    else if a = mark then ([mark], b :: rest)
    else ([], a :: b :: rest)
  | [a] => if a = mark then ([mark], []) else ([], [a])
  | [] => ([], [])

def skipSpace : List Char → List Char
  | '\r' :: '\n' :: rest => skipSpace rest
  | c :: rest => if isBlankChar c ∨ c = '\n' then skipSpace rest else c :: rest
  | [] => []

theorem skipSpace_length (text : List Char) : (skipSpace text).length ≤ text.length := by
  fun_induction skipSpace text with
  | case1 rest ih => simp only [List.length_cons]; omega
  | case2 c rest _ _ ih => simp only [List.length_cons]; omega
  | case3 => exact Nat.le_refl _
  | case4 => exact Nat.le_refl _

/-- Behind a backslash that ends its line: what follows the next character that is neither a
blank nor a line end. -/
def continued? (text : List Char) : Option (List Char) :=
  match text.dropWhile isBlankChar with
  | '\n' :: rest => some (skipSpace rest)
  | '\r' :: '\n' :: rest => some (skipSpace rest)
  | _ => none

theorem continued?_length {text rest : List Char} (h : continued? text = some rest) :
    rest.length < text.length := by
  have dropped := (List.dropWhile_sublist isBlankChar (l := text)).length_le
  unfold continued? at h
  split at h
  next after found =>
    cases h
    rw [found] at dropped
    have shorter := skipSpace_length after
    simp only [List.length_cons] at dropped
    omega
  next after found =>
    cases h
    rw [found] at dropped
    have shorter := skipSpace_length after
    simp only [List.length_cons] at dropped
    omega
  next => cases h

/-- A basic string between triple marks, behind its optional first line end. -/
def basicLines? (text : List Char) : Option (List Char × List Char) :=
  match text with
  | [] => none
  | '"' :: '"' :: '"' :: rest => some (closing '"' rest)
  | '\r' :: '\n' :: rest =>
    (basicLines? rest).map fun (body, behind) => ('\r' :: '\n' :: body, behind)
  | c :: rest =>
    if c = '\\' then
      match _h : continued? rest with
      | some after => basicLines? after
      | none =>
        match _h : escape? rest with
        | none => none
        | some (d, after) =>
          (basicLines? after).map fun (body, behind) => (d :: body, behind)
    else if c = '\n' ∨ isPlain c then
      (basicLines? rest).map fun (body, behind) => (c :: body, behind)
    else none
termination_by text.length
decreasing_by
  · simp only [List.length_cons]; omega
  · exact Nat.lt_succ_of_lt (continued?_length _h)
  · exact Nat.lt_succ_of_lt (escape?_length _h)
  · exact Nat.lt_succ_self _

/-- A literal string between triple marks, behind its optional first line end. -/
def literalLines? : List Char → Option (List Char × List Char)
  | [] => none
  | '\'' :: '\'' :: '\'' :: rest => some (closing '\'' rest)
  | '\r' :: '\n' :: rest =>
    (literalLines? rest).map fun (body, behind) => ('\r' :: '\n' :: body, behind)
  | c :: rest =>
    if c = '\n' ∨ isPlain c then
      (literalLines? rest).map fun (body, behind) => (c :: body, behind)
    else none

def string? : List Char → Option (String × List Char)
  | '"' :: '"' :: '"' :: rest =>
    (basicLines? (dropLineEnd rest)).map fun (body, behind) => (String.ofList body, behind)
  | '\'' :: '\'' :: '\'' :: rest =>
    (literalLines? (dropLineEnd rest)).map fun (body, behind) => (String.ofList body, behind)
  | '"' :: rest => (basic? rest).map fun (body, behind) => (String.ofList body, behind)
  | '\'' :: rest => (literal? rest).map fun (body, behind) => (String.ofList body, behind)
  | _ => none

end Quoted

end Toml

end SqlConsole
