import Mathlib.Data.List.DropRight
import SqlConsole.Text.Bytes
import SqlConsole.Text.Space

/-! Lines as a session reads them: the input cut behind each newline, and each line without white
space at its ends. -/
namespace SqlConsole

/-! ## Cutting -/

/-- The input cut after each newline. A last piece without one is a line if it is not empty. -/
inductive LinesOf : Bytes → List Bytes → Prop where
  | none : LinesOf [] []
  | last : line ≠ [] → Bytes.newline ∉ line → LinesOf line [line]
  | cons : Bytes.newline ∉ line → LinesOf rest more →
      LinesOf (line ++ Bytes.newline :: rest) ((line ++ [Bytes.newline]) :: more)

namespace Bytes

theorem lines_newline (rest : Bytes) : lines (newline :: rest) = [newline] :: lines rest := by
  simp [lines]

theorem lines_cons {b : UInt8} (inside : b ≠ newline) (rest : Bytes) :
    lines (b :: rest) =
      (b :: (lines rest).head?.getD []) :: (lines rest).tail := by
  rw [lines, if_neg inside]
  cases lines rest <;> rfl

theorem lines_append_newline {line : Bytes} (free : newline ∉ line) (rest : Bytes) :
    lines (line ++ newline :: rest) = (line ++ [newline]) :: lines rest := by
  induction line with
  | nil => exact lines_newline rest
  | cons b line ih =>
    obtain ⟨inside, free⟩ := List.ne_and_not_mem_of_not_mem_cons free
    rw [List.cons_append, lines_cons (Ne.symm inside), ih free]
    rfl

theorem lines_of_free {line : Bytes} (nonempty : line ≠ []) (free : newline ∉ line) :
    lines line = [line] := by
  induction line with
  | nil => exact absurd rfl nonempty
  | cons b line ih =>
    obtain ⟨inside, free⟩ := List.ne_and_not_mem_of_not_mem_cons free
    rw [lines_cons (Ne.symm inside)]
    cases line with
    | nil => rfl
    | cons c line => rw [ih (List.cons_ne_nil c line) free]; rfl

theorem linesOf_lines (input : Bytes) : LinesOf input input.lines := by
  induction input with
  | nil => exact .none
  | cons b rest ih =>
    by_cases inside : b = newline
    · subst inside
      rw [lines_newline]
      exact @LinesOf.cons [] rest _ List.not_mem_nil ih
    · rw [lines_cons inside]
      -- `b` goes to the front of whatever line the rest begins with
      cases found : lines rest <;> rw [found] at ih <;> cases ih
      case nil.none => exact .last (List.cons_ne_nil b []) (by simpa using Ne.symm inside)
      case cons.last nonempty free =>
        exact .last (List.cons_ne_nil b _)
          (List.not_mem_cons_of_ne_of_not_mem (Ne.symm inside) free)
      case cons.cons line rest free ih =>
        exact @LinesOf.cons (b :: line) rest _
          (List.not_mem_cons_of_ne_of_not_mem (Ne.symm inside) free) ih

end Bytes

theorem LinesOf.eq_lines {input : Bytes} {lines : List Bytes} (cut : LinesOf input lines) :
    lines = input.lines := by
  induction cut with
  | none => rfl
  | last nonempty free => exact (Bytes.lines_of_free nonempty free).symm
  | cons free cut ih => rw [Bytes.lines_append_newline free, ih]

/-- Nothing is cut open at the end: the input is empty or ends with a newline. -/
def EndsLine (input : Bytes) : Prop := input = [] ∨ input.getLast? = some Bytes.newline

instance (input : Bytes) : Decidable (EndsLine input) := inferInstanceAs (Decidable (_ ∨ _))

theorem LinesOf.append {ahead behind : Bytes} {lines more : List Bytes} (cut : LinesOf ahead lines)
    (whole : EndsLine ahead) (cutMore : LinesOf behind more) :
    LinesOf (ahead ++ behind) (lines ++ more) := by
  induction cut with
  | none => exact cutMore
  | last nonempty free =>
    rcases whole with empty | ended
    · exact absurd empty nonempty
    · exact absurd (List.mem_of_getLast? ended) free
  | @cons line rest later free _ ih =>
    have wholeRest : EndsLine rest := by
      by_cases empty : rest = []
      · exact .inl empty
      · refine .inr ?_
        rcases whole with impossible | ended
        · simp at impossible
        · rwa [List.append_cons, List.getLast?_append_of_ne_nil _ empty] at ended
    rw [List.append_assoc, List.cons_append, List.cons_append]
    exact .cons free (ih wholeRest)

theorem Bytes.lines_append {ahead : Bytes} (whole : EndsLine ahead) (behind : Bytes) :
    Bytes.lines (ahead ++ behind) = ahead.lines ++ behind.lines :=
  ((linesOf_lines ahead).append whole (linesOf_lines behind)).eq_lines.symm

/-! ## Trimming -/

/-- The text neither begins nor ends with white space. -/
def Trimmed (text : List Char) : Prop :=
  (∀ c ∈ text.head?, isSpace c = false) ∧ ∀ c ∈ text.getLast?, isSpace c = false

theorem head?_trimStart (text : List Char) {c : Char} (first : c ∈ (trimStart text).head?) :
    isSpace c = false := by
  have outside := List.head?_dropWhile_not isSpace text
  rw [show (text.dropWhile isSpace).head? = some c from first] at outside
  simpa using outside

theorem trimmed_trim (s : String) : Trimmed (trim s).toList := by
  rw [trim, String.toList_ofList]
  refine ⟨fun c first => ?_, fun c last => ?_⟩
  · -- what is left of a text that begins outside white space begins in the same place
    obtain ⟨dropped, whole⟩ := List.rdropWhile_prefix isSpace (trimStart s.toList)
    refine head?_trimStart s.toList ?_
    rw [← whole]
    change c ∈ (trimEnd (trimStart s.toList) ++ dropped).head?
    rw [List.head?_append, Option.mem_def.mp first]
    rfl
  · rw [trimEnd, List.getLast?_reverse] at last
    exact head?_trimStart _ last

theorem trimStart_eq_self {text : List Char} (outside : ∀ c ∈ text.head?, isSpace c = false) :
    trimStart text = text := by
  cases text with
  | nil => rfl
  | cons c text =>
    rw [trimStart, List.dropWhile_cons_of_neg]
    simp [outside c rfl]

theorem trimEnd_eq_self {text : List Char} (outside : ∀ c ∈ text.getLast?, isSpace c = false) :
    trimEnd text = text := by
  have backwards : trimStart text.reverse = text.reverse := by
    refine trimStart_eq_self ?_
    rw [List.head?_reverse]
    exact outside
  rw [trimEnd, ← trimStart, backwards, List.reverse_reverse]

theorem trim_eq_self {s : String} (trimmed : Trimmed s.toList) : trim s = s := by
  rw [trim, trimStart_eq_self trimmed.1, trimEnd_eq_self trimmed.2, String.ofList_toList]

/-- What is trimmed at the front does not reach a last character outside white space. -/
theorem getLast?_trimStart {text : List Char} {c : Char} (last : text.getLast? = some c)
    (outside : isSpace c = false) : (trimStart text).getLast? = some c := by
  have left : text.dropWhile isSpace ≠ [] := by
    intro nothing
    have space := List.dropWhile_eq_nil_iff.mp nothing c (List.mem_of_getLast? last)
    rw [outside] at space
    cases space
  rw [← List.takeWhile_append_dropWhile (p := isSpace) (l := text),
    List.getLast?_append_of_ne_nil _ left] at last
  exact last

end SqlConsole
