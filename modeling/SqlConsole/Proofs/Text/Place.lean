import Mathlib.Data.List.Induction
import Mathlib.Data.List.TakeWhile
import SqlConsole.Text.Fields
import SqlConsole.Text.Position

/-! The place behind a text, counted in the text itself and not carried along while reading.
Stepping from the start over a text leads to this place, and in the text cut at its newlines
the place names the line and the column of the next character. -/
namespace SqlConsole

/-- How many characters stand behind the last newline, or in the whole text without one. -/
def lastLineLength (text : List Char) : Nat := (text.reverse.takeWhile (· ≠ '\n')).length

/-- One line more than newlines, one column more than characters since the last of them, and
as many characters as the text has. -/
def Position.behind (text : List Char) : Position where
  line := 1 + text.count '\n'
  column := 1 + lastLineLength text
  offset := text.length

theorem lastLineLength_append_singleton (text : List Char) (c : Char) :
    lastLineLength (text ++ [c]) = if c = '\n' then 0 else lastLineLength text + 1 := by
  by_cases newline : c = '\n' <;> simp [lastLineLength, newline]

/-- A character in front counts only while no newline follows it. -/
theorem lastLineLength_cons (c : Char) (text : List Char) :
    lastLineLength (c :: text) =
      if c ≠ '\n' ∧ '\n' ∉ text then lastLineLength text + 1 else lastLineLength text := by
  induction text using List.reverseRecOn with
  | nil => by_cases newline : c = '\n' <;> simp [lastLineLength, newline]
  | append_singleton text d ih =>
    rw [← List.cons_append, lastLineLength_append_singleton, lastLineLength_append_singleton, ih]
    by_cases newline : d = '\n'
    · simp [newline]
    · simp only [newline, if_false, List.mem_append, List.mem_singleton, Ne.symm newline, or_false]
      split <;> rfl

theorem Position.behind_append_singleton (text : List Char) (c : Char) :
    behind (text ++ [c]) = (behind text).advance c := by
  by_cases newline : c = '\n'
  · simp [behind, advance, lastLineLength_append_singleton, newline, Nat.add_assoc]
  · simp [behind, advance, lastLineLength_append_singleton, newline, Nat.add_assoc]

/-- The counters that are kept while reading agree with the text that has been read. -/
theorem Position.start_after (text : List Char) : start.after text = behind text := by
  induction text using List.reverseRecOn with
  | nil => rfl
  | append_singleton text c ih =>
    rw [after_append, ih, behind_append_singleton]
    rfl

/-- Other characters in the same lines lead to the same place. -/
theorem Position.after_map {f : Char → Char} (lines : ∀ c, f c = '\n' ↔ c = '\n') (p : Position)
    (text : List Char) : p.after (text.map f) = p.after text := by
  induction text generalizing p with
  | nil => rfl
  | cons c text ih =>
    have step : p.advance (f c) = p.advance c := by simp only [advance, lines]
    rw [List.map_cons, after_cons, after_cons, step, ih]

theorem fields_newline_cons (rest : List Char) :
    fields '\n' ('\n' :: rest) = [] :: fields '\n' rest := by simp [fields]

theorem fields_cons_of_ne {separator c : Char} (other : c ≠ separator) (rest : List Char) :
    ∃ first more, fields separator rest = first :: more ∧
      fields separator (c :: rest) = (c :: first) :: more := by
  cases found : fields separator rest with
  | nil => exact absurd found (fields_ne_nil separator rest)
  | cons first more => exact ⟨first, more, rfl, by simp [fields, other, found]⟩

/-- Cut at its newlines, the text has the character that follows `before` where the place
behind `before` says. -/
theorem fields_behind (before rest : List Char) (inLine : rest.head? ≠ some '\n') :
    (fields '\n' (before ++ rest))[before.count '\n']?.bind (·[lastLineLength before]?) =
      rest.head? := by
  induction before with
  | nil =>
    cases rest with
    | nil => rfl
    | cons c rest =>
      have other : c ≠ '\n' := fun eq => inLine (by simp [eq])
      obtain ⟨first, more, _, cut⟩ := fields_cons_of_ne other rest
      simp [cut, lastLineLength]
  | cons c before ih =>
    by_cases newline : c = '\n'
    · subst newline
      rw [List.cons_append, fields_newline_cons, lastLineLength_cons]
      simpa using ih
    · obtain ⟨first, more, found, cut⟩ := fields_cons_of_ne newline (before ++ rest)
      rw [found] at ih
      rw [List.cons_append, cut, List.count_cons_of_ne newline, lastLineLength_cons]
      by_cases single : '\n' ∈ before
      · obtain ⟨lines, count⟩ := Nat.exists_eq_add_of_lt (List.count_pos_iff.mpr single)
        rw [count] at ih ⊢
        simpa [single] using ih
      · simpa [single, newline, List.count_eq_zero.mpr single] using ih

end SqlConsole
