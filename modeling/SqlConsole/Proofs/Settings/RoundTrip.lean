import SqlConsole.Proofs.Files.Writing
import SqlConsole.Proofs.Toml.Statements
import SqlConsole.Program

/-! Settings survive being written to a file and read again, whatever texts they hold. -/
namespace SqlConsole

namespace Settings

open Toml Reader

/-- The lines of a document of settings, each with the statement that it makes. -/
def lines (s : Settings) : List (List Char × Statement) :=
  [(Writer.header "shell", .header ["shell"]),
   (Writer.entry "prompt" (Writer.string s.shell.prompt.toList),
    .entry ["prompt"] (.string s.shell.prompt)),
   (Writer.entry "continuation_prompt" (Writer.string s.shell.continuation.toList),
    .entry ["continuation_prompt"] (.string s.shell.continuation)),
   (Writer.entry "show_banner" (Writer.boolean s.shell.showBanner),
    .entry ["show_banner"] (.boolean s.shell.showBanner)),
   (Writer.entry "show_tokens" (Writer.boolean s.shell.showTokens),
    .entry ["show_tokens"] (.boolean s.shell.showTokens)),
   ('\n' :: Writer.header "logging", .header ["logging"]),
   (Writer.entry "level" (Writer.string s.level.toList), .entry ["level"] (.string s.level))]

theorem document_eq (s : Settings) : s.document = String.ofList (s.lines.flatMap Prod.fst) := by
  simp [document, lines]

theorem writes_text (text : String) : Writes (Writer.string text.toList) (.string text) := by
  have writes := writes_string text.toList
  rwa [String.ofList_toList] at writes

/-- The tables that the settings make. -/
def entries (s : Settings) : Entries :=
  [("shell", .table .header
    [("prompt", .string s.shell.prompt), ("continuation_prompt", .string s.shell.continuation),
     ("show_banner", .boolean s.shell.showBanner), ("show_tokens", .boolean s.shell.showTokens)]),
   ("logging", .table .header [("level", .string s.level)])]

theorem holds_lines (s : Settings) : ∀ line ∈ s.lines, Holds line.1 line.2 := by
  simp only [lines, List.forall_mem_cons, List.not_mem_nil, false_imp_iff, implies_true, and_true]
  exact ⟨holds_header (by decide +kernel),
    holds_entry (by decide +kernel) (writes_text _),
    holds_entry (by decide +kernel) (writes_text _),
    holds_entry (by decide +kernel) (writes_boolean _),
    holds_entry (by decide +kernel) (writes_boolean _),
    holds_newline (holds_header (by decide +kernel)),
    holds_entry (by decide +kernel) (writes_text _)⟩

theorem foldlM_lines (s : Settings) :
    ((s.lines.map Prod.snd).foldlM Statement.step? ([], [])).map Prod.snd = some s.entries := by
  rfl

theorem ofEntries?_entries (s : Settings) : ofEntries? s.entries = some s := by
  rfl

/-- A document of settings is read as the settings it was written from. -/
theorem ofDocument?_document (s : Settings) : ofDocument? s.document = some s := by
  have noMark : (s.lines.flatMap Prod.fst).head? ≠ some '\uFEFF' := by
    rw [lines, List.flatMap_cons, Writer.header, List.cons_append, List.head?_cons]
    decide
  rw [ofDocument?, document_eq, read?_flatMap s.holds_lines noMark, foldlM_lines]
  exact s.ofEntries?_entries

theorem ofFile_file (s : Settings) : ofFile s.file = .ok s := by
  simp only [ofFile, file, Bytes.toText?_ofText, ofDocument?_document]

/-- Settings can be written wherever a file can, and the file then holds the same settings. -/
theorem settings_survive_file (s : Settings) {root : FileNode} {path : String}
    (accepts : root.Accepts path) :
    ofFile s.file = .ok s ∧
      ∃ after, root.write path s.file = .ok after ∧
        ∀ w : World, Program.readSettings { w with files := after.read } path = .ok s := by
  obtain ⟨after, written⟩ := accepts.write s.file
  refine ⟨s.ofFile_file, after, written, fun w => ?_⟩
  simp only [Program.readSettings, FileNode.read_write written, ofFile_file]

theorem settings_survive_file_marks :
    let marked : Settings :=
      { shell :=
          { prompt := "\n\"\"\"''' \\\r\x7f"
            continuation := "'\"\"\"\"\" \t\\\n\""
            showBanner := false
            showTokens := true }
        level := "" }
    FileNode.emptyFolder.Accepts "miniql.toml" ∧
      ofFile marked.file = .ok marked ∧
      ∃ after, FileNode.emptyFolder.write "miniql.toml" marked.file = .ok after ∧
        ∀ w : World,
          Program.readSettings { w with files := after.read } "miniql.toml" = .ok marked := by
  intro marked
  have accepts : FileNode.emptyFolder.Accepts "miniql.toml" := ⟨[], _, rfl⟩
  exact ⟨accepts, settings_survive_file marked accepts⟩

end Settings

end SqlConsole
