import SqlConsole.Proofs.Text.Lines
import SqlConsole.Shell.Buffer

/-! What the buffer gives out. Lines pushed one after the other fall into groups, each of them the
lines up to the next one that ends with a semicolon, and a rest that stays pending. The statement
of a group is never empty, so the buffer never keeps one back: no line is lost or given out
twice. -/
namespace SqlConsole

namespace Buffer

variable {line : String}

theorem join_concat (lines : List String) (line : String) :
    ∃ ahead, join (lines ++ [line]) = ahead ++ line := by
  by_cases empty : lines = []
  · subst empty
    exact ⟨"", by simp [join, String.intercalate_singleton]⟩
  · refine ⟨join lines ++ "\n", ?_⟩
    rw [join, String.intercalate_append_of_ne_nil empty (List.cons_ne_nil line []),
      String.intercalate_singleton, join]

/-- A group of lines as a text ends as its last line does. -/
theorem getLast?_join (lines : List String) (ended : endsStatement line = true) :
    (join (lines ++ [line])).toList.getLast? = some ';' := by
  obtain ⟨ahead, joined⟩ := join_concat lines line
  have semicolon : line.toList.getLast? = some ';' := by simpa [endsStatement] using ended
  simp [joined, semicolon]

theorem getLast?_trimStart_join (lines : List String) (ended : endsStatement line = true) :
    (trimStart (join (lines ++ [line])).toList).getLast? = some ';' :=
  getLast?_trimStart (getLast?_join lines ended) (by decide)

/-- There is nothing to trim at the end of a group. -/
theorem trim_join_eq (lines : List String) (ended : endsStatement line = true) :
    trim (join (lines ++ [line])) =
      String.ofList (trimStart (join (lines ++ [line])).toList) := by
  rw [trim, trimEnd_eq_self]
  intro c last
  rw [getLast?_trimStart_join lines ended] at last
  cases last
  decide

theorem push_ended (b : Buffer) (ended : endsStatement line = true) :
    b.push line = (empty, some (trim (join (b.pending ++ [line])))) := by
  have nonempty : trim (join (b.pending ++ [line])) ≠ "" := by
    intro nothing
    have last := getLast?_trimStart_join b.pending ended
    rw [trim_join_eq b.pending ended, ← String.toList_eq_nil_iff, String.toList_ofList] at nothing
    simp [nothing] at last
  simp [push, ended, nonempty]

theorem push_unended (b : Buffer) (unended : endsStatement line = false) :
    b.push line = (⟨b.pending ++ [line]⟩, none) := by
  simp [push, unended]

/-! ## Any number of lines -/

/-- The buffer behind all the lines, and the statements it has given out on the way. -/
def pushAll (b : Buffer) : List String → Buffer × List String
  | [] => (b, [])
  | line :: rest =>
    let (next, statement) := b.push line
    let (last, more) := next.pushAll rest
    (last, statement.toList ++ more)

/-- The lines of one statement: the last of them ends with a semicolon, and no other does. -/
def IsGroup (lines : List String) : Prop :=
  ∃ inner last, lines = inner ++ [last] ∧ (∀ line ∈ inner, endsStatement line = false) ∧
    endsStatement last = true

/-- Lines fall into groups and a rest. The lines that the buffer holds already belong to the first
group, or to the rest if there is none. -/
theorem pushAll_groups (b : Buffer) (held : ∀ line ∈ b.pending, endsStatement line = false)
    (lines : List String) :
    ∃ groups : List (List String),
      b.pending ++ lines = groups.flatten ++ (b.pushAll lines).1.pending ∧
      (∀ group ∈ groups, IsGroup group) ∧
      (∀ line ∈ (b.pushAll lines).1.pending, endsStatement line = false) ∧
      (b.pushAll lines).2 =
        groups.map fun group => String.ofList (trimStart (join group).toList) := by
  induction lines generalizing b with
  | nil => exact ⟨[], by simp [pushAll], by simp, held, rfl⟩
  | cons line rest ih =>
    cases ended : endsStatement line with
    | false =>
      have still : ∀ l ∈ b.pending ++ [line], endsStatement l = false := by
        intro l member
        rcases List.mem_append.mp member with old | new
        · exact held l old
        · rw [List.mem_singleton.mp new, ended]
      obtain ⟨groups, split, whole, left, given⟩ := ih ⟨b.pending ++ [line]⟩ still
      simp only [pushAll, push_unended b ended]
      exact ⟨groups, by simpa using split, whole, left, by simpa using given⟩
    | true =>
      obtain ⟨groups, split, whole, left, given⟩ := ih empty nofun
      have group : IsGroup (b.pending ++ [line]) := ⟨b.pending, line, rfl, held, ended⟩
      simp only [pushAll, push_ended b ended]
      refine ⟨(b.pending ++ [line]) :: groups, ?_, ?_, left, ?_⟩
      · simpa [empty] using split
      · exact List.forall_mem_cons.mpr ⟨group, whole⟩
      · simp [given, trim_join_eq b.pending ended]

/-- The buffer loses no line and doubles none. A line that ends with a semicolon gives out a
statement and leaves nothing pending, whatever was pushed before, and no other line does either.
All lines together are the groups of the statements given out, in order, and the lines pending; a
statement is its group joined, without the white space in front. -/
theorem push_conserves_lines (lines : List String) :
    (∀ line, (((empty.pushAll lines).1.push line).2.isSome = true ↔
          line.toList.getLast? = some ';') ∧
        (((empty.pushAll lines).1.push line).1.isEmpty = true ↔
          line.toList.getLast? = some ';')) ∧
      ∃ groups : List (List String),
        lines = groups.flatten ++ (empty.pushAll lines).1.pending ∧
        (∀ group ∈ groups, IsGroup group) ∧
        (∀ line ∈ (empty.pushAll lines).1.pending, endsStatement line = false) ∧
        (empty.pushAll lines).2 =
          groups.map fun group => String.ofList (trimStart (join group).toList) := by
  refine ⟨fun line => ?_, pushAll_groups empty nofun lines⟩
  have semicolon : endsStatement line = true ↔ line.toList.getLast? = some ';' := by
    simp [endsStatement]
  rw [← semicolon]
  cases ended : endsStatement line with
  | false => simp [push_unended _ ended, isEmpty]
  | true => simp [push_ended _ ended, isEmpty, empty]

/-- Lines of white space belong to the statement behind them. -/
example : (empty.pushAll ["\u2003", " SELECT", "", "1 ;", " ;;", "x"]) =
    (⟨["x"]⟩, ["SELECT\n\n1 ;", ";;"]) := by
  decide +kernel

end Buffer

end SqlConsole
