import SqlConsole.Proofs.Report.Rows
import SqlConsole.Proofs.Scan.Joining
import SqlConsole.Proofs.Shell.Transcript

/-! The table report as lines. No newline gets into a line, so the lines are told apart. The first
frame ends the list of faults, none of which begins like one, and the rows stand between the third
line of the table and its last. The end of the text has no row, so its place is not told. -/
namespace SqlConsole

namespace Table

/-- The line for a token. It is as wide as the frame unless a cell is too long. -/
structure Row (t : Token) (line : List Char) : Prop where
  holds : HoldsToken t line
  even : (quoted t).length ≤ 25 → (Nat.toDigits 10 t.position.line).length ≤ 8 →
    (Nat.toDigits 10 t.position.column).length ≤ 8 → line.length = frame.length

/-- The faults under their heading, or nothing. -/
def faultSection : List ScanFault → List (List Char)
  | [] => []
  | first :: more => "Lexical errors:\n".toList :: (first :: more).map faultLine

/-- The lines report on a scan: its faults, and the framed table of its tokens. -/
structure Reports (output : ScanOutput) (lines : List (List Char)) : Prop where
  cut : ∀ line ∈ lines, IsLine line
  parts : ∃ rows, lines =
      faultSection output.faults ++ frame :: header :: frame :: (rows ++ [frame]) ∧
    List.Forall₂ Row output.inner rows

/-- What is seen of a fault in its line. -/
def lineContent (f : ScanFault) : ScanCause × Nat × Nat :=
  (f.cause, f.position.line, f.position.column)

/-! ## Reading the lines -/

theorem frame_ne_faultLine (f : ScanFault) : frame ≠ faultLine f := by
  intro same
  have first := congrArg List.head? same
  rw [faultLine, String.toList_append, String.toList_append] at first
  cases first

theorem frame_notMem_faultSection (faults : List ScanFault) : frame ∉ faultSection faults := by
  cases faults with
  | nil => exact List.not_mem_nil
  | cons first more =>
    intro mem
    rcases List.mem_cons.mp mem with heading | mem
    · exact absurd heading (by decide)
    · obtain ⟨f, -, same⟩ := List.mem_map.mp mem
      exact frame_ne_faultLine f same.symm

theorem lineContent_eq_of_section {faults others : List ScanFault}
    (same : faultSection faults = faultSection others) :
    faults.map lineContent = others.map lineContent := by
  cases faults with
  | nil =>
    cases others with
    | nil => rfl
    | cons => cases same
  | cons first more =>
    cases others with
    | nil => cases same
    | cons =>
      exact Report.map_eq_map_of_eq (fun _ _ => faultLine_injective) (List.cons.inj same).2

theorem rowContent_eq_of_rows {tokens others : List Token} {rows : List (List Char)}
    (held : List.Forall₂ Row tokens rows) (also : List.Forall₂ Row others rows) :
    tokens.map rowContent = others.map rowContent := by
  induction held generalizing others with
  | nil =>
    cases also
    rfl
  | cons row _ ih =>
    cases also with
    | cons other rest =>
      rw [List.map_cons, List.map_cons, row.holds.rowContent_eq other.holds, ih rest]

/-- Lines that report on two scans show the same of both. -/
theorem Reports.content_eq {output other : ScanOutput} {lines : List (List Char)}
    (reports : Reports output lines) (also : Reports other lines) :
    output.faults.map lineContent = other.faults.map lineContent ∧
      output.inner.map rowContent = other.inner.map rowContent := by
  obtain ⟨rows, whole, held⟩ := reports.parts
  obtain ⟨rows', whole', held'⟩ := also.parts
  rw [whole] at whole'
  obtain ⟨sections, table⟩ := append_separator_inj (frame_notMem_faultSection _)
    (frame_notMem_faultSection _) whole'
  have behind := (List.cons.inj (List.cons.inj table).2).2
  obtain rfl := List.append_cancel_right behind
  exact ⟨lineContent_eq_of_section sections, rowContent_eq_of_rows held held'⟩

/-! ## Writing the lines -/

/-- The lines that are written. -/
def linesOf (output : ScanOutput) : List (List Char) :=
  faultSection output.faults ++
    frame :: header :: frame :: (output.inner.map tokenRow ++ [frame])

theorem row_tokenRow (t : Token) : Row t (tokenRow t) :=
  ⟨holdsToken_tokenRow t, length_tokenRow⟩

theorem isLine_faultSection {source : String} :
    ∀ line ∈ faultSection (scan source).faults, IsLine line := by
  have faults : ∀ f ∈ (scan source).faults, IsLine (faultLine f) := fun f => isLine_faultLine
  cases found : (scan source).faults with
  | nil => exact List.forall_mem_nil _
  | cons first more =>
    rw [found] at faults
    have heading : IsLine "Lexical errors:\n".toList :=
      ⟨"Lexical errors:".toList, by decide, by decide⟩
    exact List.forall_mem_cons.mpr ⟨heading, List.forall_mem_map.mpr faults⟩

theorem reports_linesOf (source : String) : Reports (scan source) (linesOf (scan source)) := by
  have framed : IsLine frame := ⟨frame.dropLast, by decide, by decide⟩
  have headed : IsLine header := ⟨header.dropLast, by decide, by decide⟩
  refine ⟨?_, (scan source).inner.map tokenRow, rfl, ?_⟩
  · have rows : ∀ line ∈ (scan source).inner.map tokenRow ++ [frame], IsLine line := by
      refine List.forall_mem_append.mpr ⟨?_, List.forall_mem_singleton.mpr framed⟩
      exact List.forall_mem_map.mpr fun t _ => (holdsToken_tokenRow t).isLine
    refine List.forall_mem_append.mpr ⟨isLine_faultSection, ?_⟩
    simp only [List.forall_mem_cons]
    exact ⟨framed, headed, framed, rows⟩
  · rw [List.forall₂_map_right_iff, List.forall₂_same]
    exact fun t _ => row_tokenRow t

theorem takeWhile_scan (source : String) :
    (scan source).tokens.takeWhile (fun t => !t.isEnd) = (scan source).inner := by
  have inner : ∀ t ∈ (scan source).inner, (!t.isEnd) = true := by
    intro t mem
    exact (List.mem_filter.mp mem).2
  rw [scan_inner_append_ends, List.takeWhile_append_of_pos inner, scan_ends]
  exact List.append_nil _

theorem render_scan (source : String) :
    render (scan source).tokens = String.ofList
      (frame :: header :: frame :: ((scan source).inner.map tokenRow ++ [frame])).flatten := by
  rw [render, takeWhile_scan]
  simp [List.flatMap_def]

theorem toList_renderFaults (faults : List ScanFault) :
    (renderFaults faults).toList = (faults.map faultLine).flatten := by
  rw [renderFaults, String.toList_join, List.flatMap_map]
  exact List.flatMap_def

theorem bytesOf_faultLines (output : ScanOutput) :
    bytesOf (Report.faultLines output) =
      Bytes.ofText (String.ofList (faultSection output.faults).flatten) := by
  unfold Report.faultLines ScanOutput.hasFaults
  cases output.faults with
  | nil => rfl
  | cons first more =>
    rw [faultSection, List.flatten_cons, ← toList_renderFaults, String.ofList_append,
      Bytes.ofText_append, String.ofList_toList, String.ofList_toList]
    simp [bytesOf, Action.bytes]

theorem output_table (source : String) :
    (tokenize .table source).output =
      Bytes.ofText (String.ofList (linesOf (scan source)).flatten) := by
  rw [Shell.output_tokenize_table, bytesOf_faultLines, Shell.tablePart, render_scan,
    ← Bytes.ofText_append, ← String.ofList_append, ← List.flatten_append]
  rfl

/-- Kind and value of a token, with the newlines of the value shown. -/
def valueContent (t : Token) : TokenKind × List Char := (t.kind, showNewlines t.value.toList)

/-- The end token has no row, but it is always there and its value is always empty. -/
theorem valueContent_eq {source other : String}
    (same : (scan other).inner.map rowContent = (scan source).inner.map rowContent) :
    (scan other).tokens.map valueContent = (scan source).tokens.map valueContent := by
  have inner (tokens : List Token) : tokens.map valueContent =
      (tokens.map rowContent).map fun content => (content.1, content.2.2.2) := by
    rw [List.map_map]
    rfl
  rw [scan_inner_append_ends, scan_inner_append_ends, List.map_append, List.map_append,
    inner (scan other).inner, same, ← inner, scan_ends, scan_ends]
  rfl

end Table

/-- The table report of a text is made of lines. Faults come first, a line for each under their
heading; then the table, a line for each token before the end. A cell never loses any of its text,
and only a cell longer than its column makes a row uneven. Texts with one report have the same
faults, the same kinds and values of tokens, and before the end the same places of them. -/
theorem table_report_lines (sql : String) :
    ∃ lines, (tokenize .table sql).output = Bytes.ofText (String.ofList lines.flatten) ∧
      Table.Reports (scan sql) lines ∧
      ∀ other : String, (tokenize .table other).output = (tokenize .table sql).output →
        (scan other).faults.map Table.lineContent = (scan sql).faults.map Table.lineContent ∧
        (scan other).tokens.map Table.valueContent = (scan sql).tokens.map Table.valueContent ∧
        (scan other).inner.map Table.rowContent = (scan sql).inner.map Table.rowContent := by
  refine ⟨Table.linesOf (scan sql), Table.output_table sql, Table.reports_linesOf sql, ?_⟩
  intro other same
  rw [Table.output_table, Table.output_table] at same
  have texts := String.ofList_inj.mp (Bytes.ofText_injective same)
  have reports := Table.reports_linesOf other
  rw [eq_of_flatten_eq reports.cut (Table.reports_linesOf sql).cut texts] at reports
  obtain ⟨faults, tokens⟩ := reports.content_eq (Table.reports_linesOf sql)
  exact ⟨faults, Table.valueContent_eq tokens, tokens⟩

/-- A newline in a string is shown as a backslash and an `n`, so it is not told from them. -/
theorem table_report_lines_newline :
    (tokenize .table "'a\nb'").output = (tokenize .table "'a\\nb'").output ∧
      (scan "'a\nb'").inner.map Table.rowContent = (scan "'a\\nb'").inner.map Table.rowContent := by
  have lines : Table.linesOf (scan "'a\nb'") = Table.linesOf (scan "'a\\nb'") := by
    decide +kernel
  have same : (tokenize .table "'a\nb'").output = (tokenize .table "'a\\nb'").output := by
    rw [Table.output_table, Table.output_table, lines]
  obtain ⟨_, -, -, told⟩ := table_report_lines "'a\\nb'"
  exact ⟨same, (told "'a\nb'" same).2.2⟩

/-- Where the text ends is not told: behind blanks the end token stands elsewhere. -/
theorem table_report_end_unplaced :
    (tokenize .table "").output = (tokenize .table " ").output ∧
      (scan "").tokens.map Table.rowContent ≠ (scan " ").tokens.map Table.rowContent := by
  have lines : Table.linesOf (scan "") = Table.linesOf (scan " ") := by decide +kernel
  constructor
  · rw [Table.output_table, Table.output_table, lines]
  · decide +kernel

end SqlConsole
