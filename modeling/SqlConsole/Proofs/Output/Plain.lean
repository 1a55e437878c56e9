import SqlConsole.Proofs.Shell.Transcript

/-! What a run does one action at a time. A session and a table report write plain text, flush and
log. A structured report writes a document besides. Whoever logs is a part of the program. -/
namespace SqlConsole

namespace Log

/-- The parts of the program that log. -/
def targets : List String := [scannerTarget, shellTarget, programTarget]

@[simp] theorem scannerTarget_mem : scannerTarget ∈ targets := by decide

@[simp] theorem shellTarget_mem : shellTarget ∈ targets := by decide

@[simp] theorem programTarget_mem : programTarget ∈ targets := by decide

end Log

/-- The action writes plain text, flushes, or logs for a part of the program. -/
inductive Action.Plain : Action → Prop where
  | write : Plain (.write text)
  | flush : Plain .flush
  | log : entry.target ∈ Log.targets → Plain (.log entry)

namespace Action

@[simp] theorem plain_write {text : String} : (write text).Plain := .write

@[simp] theorem plain_flush : flush.Plain := .flush

@[simp] theorem plain_log {entry : Log.Record} :
    (log entry).Plain ↔ entry.target ∈ Log.targets := by
  constructor
  · intro (.log known)
    exact known
  · exact .log

end Action

def Plain (actions : List Action) : Prop := ∀ action ∈ actions, action.Plain

@[simp] theorem plain_nil : Plain [] := nofun

@[simp] theorem plain_cons {action : Action} {rest : List Action} :
    Plain (action :: rest) ↔ action.Plain ∧ Plain rest := List.forall_mem_cons

@[simp] theorem plain_append {first second : List Action} :
    Plain (first ++ second) ↔ Plain first ∧ Plain second := List.forall_mem_append

/-! ## Reports -/

theorem plain_records (output : ScanOutput) : Plain (Report.records output) := by
  refine plain_append.mpr ⟨?_, by simp⟩
  exact List.forall_mem_map.mpr fun _ _ => .log Log.scannerTarget_mem

theorem plain_faultLines (output : ScanOutput) : Plain (Report.faultLines output) := by
  unfold Report.faultLines
  split <;> simp

theorem plain_tableLines (output : ScanOutput) : Plain (Report.tableLines output) := by
  simp [Report.tableLines]

theorem plain_tokenize_table (sql : String) : Plain (tokenize .table sql).actions := by
  simp [tokenize, Report.body, plain_records, plain_faultLines, plain_tableLines]

/-- What a structured report does besides logging. -/
theorem actions_tokenize_structured (sql : String) :
    (tokenize .structured sql).actions = Report.records (scan sql) ++
      [.document (Report.document (scan sql)), .write "\n", .flush] := by
  simp [tokenize, Report.body]

/-! ## Sessions -/

namespace Shell

theorem plain_ask (settings : ShellSettings) (buffer : Buffer) : Plain (ask settings buffer) := by
  simp [ask]

theorem plain_opening (settings : ShellSettings) : Plain (opening settings) := by
  unfold opening
  split <;> simp [banner]

theorem plain_response (command : Command) (line : String) : Plain (command.response line) := by
  cases command <;> simp [Command.response]

theorem plain_answer (settings : ShellSettings) (statement : String) :
    Plain (answer settings statement) := by
  unfold answer
  split <;> simp [plain_records, plain_faultLines, plain_tableLines]

/-- All that a reply still puts out. -/
def Reply.actions : Reply → List Action
  | goOn actions _ => actions
  | stop rest => rest.actions

theorem plain_reply (settings : ShellSettings) (buffer : Buffer) (line : String) :
    Plain (reply settings buffer line).actions := by
  unfold reply
  split
  · simp [Reply.actions]
  split
  · dsimp only
    split <;> simp [Reply.actions, plain_response]
  split <;> simp [Reply.actions, plain_answer]

theorem plain_replyRaw (settings : ShellSettings) (buffer : Buffer) (raw : Bytes) :
    Plain (replyRaw settings buffer raw).actions := by
  unfold replyRaw
  split
  · simp [Reply.actions, Run.fail]
  · exact plain_reply settings buffer _

theorem plain_session (settings : ShellSettings) (buffer : Buffer) (raws : List Bytes) :
    Plain (session settings buffer raws).actions := by
  induction raws generalizing buffer with
  | nil => simp [session, Run.after, ending, plain_ask]
  | cons raw rest ih =>
    have plain := plain_replyRaw settings buffer raw
    cases replied : replyRaw settings buffer raw with
    | stop final =>
      rw [replied] at plain
      rw [session_stop rest replied]
      exact plain_append.mpr ⟨plain_ask settings buffer, plain⟩
    | goOn actions next =>
      rw [replied] at plain
      rw [session_goOn rest replied]
      exact plain_append.mpr ⟨plain_append.mpr ⟨plain_ask settings buffer, plain⟩, ih next⟩

theorem plain_run (settings : ShellSettings) (input : Bytes) :
    Plain (run settings input).actions :=
  plain_append.mpr ⟨plain_opening settings, plain_session settings .empty input.lines⟩

end Shell

end SqlConsole
