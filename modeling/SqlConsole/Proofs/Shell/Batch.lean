import SqlConsole.Proofs.Text.Lines
import SqlConsole.Shell.Buffer

/-! The items of a session. The grammar `Batch` looks at whole runs of lines; the reader
`itemize` meets one line at a time and holds back those of a statement not yet complete. They
agree, so lines fall into items in exactly one way. -/
namespace SqlConsole

namespace Shell

/-- The line without white space at its ends, if it is text. -/
def lineOf? (raw : Bytes) : Option String := raw.toText?.map trim

/-- The line begins a statement where nothing is pending. -/
def Opens (line : String) : Prop := line ≠ "" ∧ line.toList.head? ≠ some '.'

def Leaves (line : String) : Prop := firstWord line = ".exit" ∨ firstWord line = ".quit"

instance (line : String) : Decidable (Leaves line) := inferInstanceAs (Decidable (_ ∨ _))

inductive Item where
  | blank
  | command (line : String)
  | statement (lines : List String)
  /-- The lines of a statement that the input does not complete. -/
  | pending (lines : List String)
  deriving DecidableEq

/-- Why no further line is read. -/
inductive Close where
  | left
  | exhausted
  | unreadable
  deriving DecidableEq

/-- Lines that begin a statement and do not complete it. Behind the first one blank lines and
lines with a dot belong to it too. -/
structure Unfinished (raws : List Bytes) (lines : List String) : Prop where
  read : raws.map lineOf? = lines.map some
  opens : ∀ first ∈ lines.head?, Opens first
  unended : ∀ line ∈ lines, Buffer.endsStatement line = false

/-- The items of lines, from a place where nothing is pending. A statement is the shortest run
of lines whose last one ends with a semicolon. -/
inductive Batch : List Bytes → List Item → Close → Prop where
  | exhausted : Batch [] [] .exhausted
  | unreadable : lineOf? raw = none → Batch (raw :: rest) [] .unreadable
  | blank : lineOf? raw = some "" → Batch rest items close →
      Batch (raw :: rest) (.blank :: items) close
  | command : lineOf? raw = some line → line.toList.head? = some '.' → ¬ Leaves line →
      Batch rest items close → Batch (raw :: rest) (.command line :: items) close
  | leave : lineOf? raw = some line → line.toList.head? = some '.' → Leaves line →
      Batch (raw :: rest) [.command line] .left
  | statement : Unfinished raws lines → lineOf? raw = some last → (lines = [] → Opens last) →
      Buffer.endsStatement last = true → Batch rest items close →
      Batch (raws ++ raw :: rest) (.statement (lines ++ [last]) :: items) close
  | pending : Unfinished raws lines → lines ≠ [] → Batch raws [.pending lines] .exhausted
  | broken : Unfinished raws lines → lines ≠ [] → lineOf? raw = none →
      Batch (raws ++ raw :: rest) [.pending lines] .unreadable

/-! ## Reading line by line -/

def heldBack (lines : List String) : List Item := if lines = [] then [] else [.pending lines]

def prepend (item : Item) (read : List Item × Close) : List Item × Close :=
  (item :: read.1, read.2)

/-- The items of lines, where `lines` of a statement are held back already. -/
def itemize (lines : List String) : List Bytes → List Item × Close
  | [] => (heldBack lines, .exhausted)
  | raw :: rest =>
    match lineOf? raw with
    | none => (heldBack lines, .unreadable)
    | some line =>
      if lines = [] ∧ line = "" then prepend .blank (itemize [] rest)
      else if lines = [] ∧ line.toList.head? = some '.' then
        if Leaves line then ([.command line], .left)
        else prepend (.command line) (itemize [] rest)
      else if Buffer.endsStatement line then
        prepend (.statement (lines ++ [line])) (itemize [] rest)
      else itemize (lines ++ [line]) rest

variable {raw : Bytes} {raws rest : List Bytes} {line : String} {lines : List String}

theorem itemize_unreadable (unreadable : lineOf? raw = none) :
    itemize lines (raw :: rest) = (heldBack lines, .unreadable) := by
  simp [itemize, unreadable]

theorem itemize_blank (read : lineOf? raw = some "") :
    itemize [] (raw :: rest) = prepend .blank (itemize [] rest) := by
  simp [itemize, read]

theorem itemize_command (read : lineOf? raw = some line) (dot : line.toList.head? = some '.') :
    itemize [] (raw :: rest) = if Leaves line then ([.command line], .left)
      else prepend (.command line) (itemize [] rest) := by
  have nonempty : line ≠ "" := by
    rintro rfl
    exact nomatch dot
  simp [itemize, read, nonempty, dot]

/-- A line that neither stands alone nor is a command belongs to a statement. -/
theorem itemize_line (read : lineOf? raw = some line) (opens : lines = [] → Opens line) :
    itemize lines (raw :: rest) = if Buffer.endsStatement line
      then prepend (.statement (lines ++ [line])) (itemize [] rest)
      else itemize (lines ++ [line]) rest := by
  have notBlank : ¬ (lines = [] ∧ line = "") := fun ⟨first, empty⟩ => (opens first).1 empty
  have notDot : ¬ (lines = [] ∧ line.toList.head? = some '.') :=
    fun ⟨first, dot⟩ => (opens first).2 dot
  simp only [itemize, read, if_neg notBlank, if_neg notDot]

namespace Unfinished

theorem nil : Unfinished [] [] := ⟨rfl, nofun, nofun⟩

theorem concat (held : Unfinished raws lines) (read : lineOf? raw = some line)
    (opens : lines = [] → Opens line) (unended : Buffer.endsStatement line = false) :
    Unfinished (raws ++ [raw]) (lines ++ [line]) where
  read := by simp [held.read, read]
  opens first found := by
    cases lines with
    | nil => obtain rfl : line = first := by simpa using found
             exact opens rfl
    | cons head tail => exact held.opens first found
  unended := by
    intro l member
    rcases List.mem_append.mp member with old | new
    · exact held.unended l old
    · rw [List.mem_singleton.mp new]
      exact unended

/-- The last of the lines, and those in front of it. -/
theorem concat_inv (held : Unfinished raws (lines ++ [line])) :
    ∃ ahead raw, raws = ahead ++ [raw] ∧ Unfinished ahead lines ∧ lineOf? raw = some line ∧
      (lines = [] → Opens line) ∧ Buffer.endsStatement line = false := by
  obtain ⟨read, opens, unended⟩ := held
  rw [List.map_append, List.map_eq_append_iff] at read
  obtain ⟨ahead, last, rfl, readAhead, readLast⟩ := read
  obtain ⟨raw, rfl, readLine⟩ := List.map_eq_singleton_iff.mp readLast
  refine ⟨ahead, raw, rfl, ⟨readAhead, fun first found => opens first ?_, fun l member => ?_⟩,
    readLine, fun empty => opens line ?_, unended line (by simp)⟩
  · rw [List.head?_append, Option.mem_def.mp found]
    rfl
  · exact unended l (List.mem_append_left [line] member)
  · rw [empty]
    rfl

/-- Lines that complete no statement are held back. -/
theorem itemize_append (held : Unfinished raws lines) (rest : List Bytes) :
    itemize [] (raws ++ rest) = itemize lines rest := by
  induction lines using List.reverseRecOn generalizing raws rest with
  | nil => rw [List.map_eq_nil_iff.mp held.read, List.nil_append]
  | append_singleton lines line ih =>
    obtain ⟨ahead, raw, rfl, heldAhead, read, opens, unended⟩ := held.concat_inv
    rw [List.append_assoc, ih heldAhead, List.singleton_append, itemize_line read opens, unended]
    rfl

end Unfinished

/-! ## The two agree -/

theorem Batch.eq_itemize {items : List Item} {close : Close} (batch : Batch raws items close) :
    itemize [] raws = (items, close) := by
  induction batch with
  | exhausted => rfl
  | unreadable unreadable => exact itemize_unreadable unreadable
  | blank read _ ih => rw [itemize_blank read, ih, prepend]
  | command read dot stays _ ih => rw [itemize_command read dot, if_neg stays, ih, prepend]
  | leave read dot leaves => rw [itemize_command read dot, if_pos leaves]
  | statement held read opens ended _ ih =>
    rw [held.itemize_append, itemize_line read opens, if_pos ended, ih, prepend]
  | @pending raws lines held nonempty =>
    have whole := held.itemize_append []
    rw [List.append_nil] at whole
    rw [whole, itemize, heldBack, if_neg nonempty]
  | broken held nonempty unreadable =>
    rw [held.itemize_append, itemize_unreadable unreadable, heldBack, if_neg nonempty]

theorem batch_append (held : Unfinished raws lines) :
    Batch (raws ++ rest) (itemize lines rest).1 (itemize lines rest).2 := by
  -- the lines held back grow with each one that belongs to a statement and does not end it
  induction rest generalizing raws lines with
  | nil =>
    rw [List.append_nil, itemize, heldBack]
    split
    next empty =>
      subst empty
      rw [List.map_eq_nil_iff.mp held.read]
      exact .exhausted
    next nonempty => exact .pending held nonempty
  | cons raw rest ih =>
    cases read : lineOf? raw with
    | none =>
      rw [itemize_unreadable read, heldBack]
      split
      next empty =>
        subst empty
        rw [List.map_eq_nil_iff.mp held.read]
        exact .unreadable read
      next nonempty => exact .broken held nonempty read
    | some line =>
      by_cases opens : lines = [] → Opens line
      · rw [itemize_line read opens]
        cases ended : Buffer.endsStatement line
        · have further := ih (held.concat read opens ended)
          rwa [List.append_assoc] at further
        · exact .statement held read opens ended (ih .nil)
      · obtain ⟨rfl, alone⟩ := Classical.not_imp.mp opens
        obtain rfl := List.map_eq_nil_iff.mp held.read
        rw [Opens, not_and_or, not_not, not_not] at alone
        rcases alone with rfl | dot
        · rw [itemize_blank read]
          exact .blank read (ih .nil)
        · rw [itemize_command read dot]
          split
          next leaves => exact .leave read dot leaves
          next stays => exact .command read dot stays (ih .nil)

theorem batch_iff {items : List Item} {close : Close} :
    Batch raws items close ↔ itemize [] raws = (items, close) := by
  refine ⟨Batch.eq_itemize, fun read => ?_⟩
  have batch := @batch_append [] raws [] .nil
  rwa [List.nil_append, read] at batch

/-- Within a statement a line with a dot is no command. -/
example : itemize [] ((Bytes.ofText "\nSELECT 1\n .quit ;\n.quit\n;").lines) =
    ([.blank, .statement ["SELECT 1", ".quit ;"], .command ".quit"], .left) := by
  decide +kernel

end Shell

end SqlConsole
