import SqlConsole.Proofs.Program.Messages
import SqlConsole.Proofs.Settings.Precedence
import SqlConsole.Proofs.Shell.Transcript

/-! What the exit code of a run tells. A task ends in one of three ways: all that was asked for is
done, the text that it reports on is faulty, or something outside fails. Settings that cannot be
loaded count as a failure outside. Only such a failure is told in a message of its own. -/
namespace SqlConsole

namespace Shell

variable {settings : ShellSettings} {buffer next : Buffer} {raw : Bytes}

/-- The lines that a session reads: none behind the one at which it stops. -/
def linesRead (settings : ShellSettings) : Buffer → List Bytes → List Bytes
  | _, [] => []
  | buffer, raw :: rest =>
    raw :: match replyRaw settings buffer raw with
      | .stop _ => []
      | .goOn _ next => linesRead settings next rest

/-- A line that is text stops a session only when it leaves it. -/
theorem result_of_reply {line : String} {final : Run}
    (stop : reply settings buffer line = .stop final) : final.result = .ok () := by
  unfold reply at stop
  split at stop
  · cases stop
  split at stop
  · dsimp only at stop
    split at stop
    · cases stop
      rfl
    · cases stop
  split at stop <;> cases stop

theorem result_of_stop {final : Run} (stop : replyRaw settings buffer raw = .stop final) :
    final.result = if raw.toText? = none then .error (.io .notText) else .ok () := by
  unfold replyRaw at stop
  split at stop
  next unreadable =>
    cases stop
    rw [if_pos unreadable]
    rfl
  next line isText =>
    rw [isText, if_neg nofun]
    exact result_of_reply stop

theorem isText_of_goOn {actions : List Action}
    (goesOn : replyRaw settings buffer raw = .goOn actions next) : raw.toText? ≠ none := by
  intro unreadable
  rw [replyRaw, unreadable] at goesOn
  cases goesOn

/-- A session fails only on a line that is not text. -/
theorem result_session (settings : ShellSettings) (buffer : Buffer) (raws : List Bytes) :
    (session settings buffer raws).result =
      if ∀ raw ∈ linesRead settings buffer raws, raw.toText? ≠ none then .ok ()
      else .error (.io .notText) := by
  induction raws generalizing buffer with
  | nil => simp [session, linesRead, ending, Run.after]
  | cons raw rest ih =>
    cases replied : replyRaw settings buffer raw with
    | stop final =>
      rw [session_stop rest replied, linesRead, replied]
      simpa [Run.after] using result_of_stop replied
    | goOn actions next =>
      have isText := isText_of_goOn replied
      rw [session_goOn rest replied, linesRead, replied]
      simpa [Run.after, isText] using ih next

end Shell

namespace Program

/-! ## How a task ends -/

/-- The text that a task reports on, if it is there: its argument, or what its file holds. -/
def textOf? (w : World) : Task → Option (ReportForm × String)
  | .tokenize sql form => some (form, sql)
  | .file path form =>
    match w.files path with
    | .ok bytes => bytes.toText?.map fun sql => (form, sql)
    | .error _ => none
  | .shell | .info => none

/-- The task reports on a text, and the text has faults. -/
def Faulty (task : Option Task) (w : World) : Prop :=
  ∃ form sql, task.bind (textOf? w) = some (form, sql) ∧ (scan sql).faults ≠ []

/-- All that was asked for is done: every line that a session reads is text, and a text to report
on is there and has no faults. -/
def Fulfilled (settings : Settings) (task : Option Task) (w : World) : Prop :=
  match task with
  | none | some .shell =>
    ∀ raw ∈ Shell.linesRead settings.shell .empty w.input.lines, raw.toText? ≠ none
  | some .info => True
  | some task => ∃ form sql, textOf? w task = some (form, sql) ∧ (scan sql).faults = []

/-- The three ways in which a task ends, each with its result. -/
inductive Ends (settings : Settings) (task : Option Task) (w : World) :
    Except Fault Unit → Prop where
  | done : Fulfilled settings task w → ¬ Faulty task w → Ends settings task w (.ok ())
  | faulty : Faulty task w → ¬ Fulfilled settings task w →
      Ends settings task w (.error (.lexical count first))
  | failed : ¬ Fulfilled settings task w → ¬ Faulty task w →
      Ends settings task w (.error (.io cause))

theorem verdict_eq (output : ScanOutput) :
    Report.verdict output =
      if output.faults = [] then .ok () else .error (Fault.ofScanFaults output.faults) := by
  unfold Report.verdict ScanOutput.hasFaults
  cases output.faults <;> rfl

theorem not_faulty_session {task : Option Task} (shell : task = none ∨ task = some .shell)
    (w : World) : ¬ Faulty task w := by
  rintro ⟨form, sql, found, -⟩
  rcases shell with rfl | rfl <;> cases found

section Endings

variable {settings : Settings} {task : Option Task} {w : World}

theorem ends_shell (shell : task = none ∨ task = some .shell) :
    Ends settings task w (Shell.run settings.shell w.input).result := by
  have noText := not_faulty_session shell w
  have result := Shell.result_session settings.shell .empty w.input.lines
  rw [Shell.run]
  change Ends settings task w (Shell.session settings.shell .empty w.input.lines).result
  rw [result]
  split
  next readable =>
    refine .done ?_ noText
    rcases shell with rfl | rfl <;> exact readable
  next unreadable =>
    refine .failed (fun fulfilled => unreadable ?_) noText
    rcases shell with rfl | rfl <;> exact fulfilled

/-- A text is reported on. -/
theorem ends_reported {named : Task} {form : ReportForm} {sql : String}
    (found : textOf? w named = some (form, sql)) :
    Ends settings (some named) w (Report.verdict (scan sql)) := by
  have fulfilled_iff : Fulfilled settings (some named) w ↔ (scan sql).faults = [] := by
    cases named with
    | shell | info => cases found
    | tokenize | file => simp [Fulfilled, found]
  have faulty_iff : Faulty (some named) w ↔ (scan sql).faults ≠ [] := by
    simp [Faulty, found]
  rw [verdict_eq]
  split
  next clean => exact .done (fulfilled_iff.mpr clean) (fun faulty => faulty_iff.mp faulty clean)
  next faults => exact .faulty (faulty_iff.mpr faults) (fun done => faults (fulfilled_iff.mp done))

theorem ends_unavailable {path : String} {form : ReportForm} {cause : IoCause}
    (missing : textOf? w (.file path form) = none) :
    Ends settings (some (.file path form)) w (.error (.io cause)) := by
  refine .failed ?_ ?_
  · rintro ⟨form, sql, found, -⟩
    rw [missing] at found
    cases found
  · rintro ⟨form, sql, found, -⟩
    exact nomatch missing.symm.trans found

/-- A file is reported on as a text is, or it has no text and nothing is reported. -/
theorem reportFile_cases (form : ReportForm) (path : String) (w : World) :
    ∃ record, (∃ sql, textOf? w (.file path form) = some (form, sql) ∧
        reportFile form path w = (tokenize form sql).after [.log record]) ∨
      (∃ cause, textOf? w (.file path form) = none ∧
        reportFile form path w = (Run.fail (.io cause)).after [.log record]) := by
  refine ⟨⟨.info, Log.programTarget, "Чтение файла " ++ path⟩, ?_⟩
  cases read : w.files path with
  | error cause => exact .inr ⟨cause, by simp [textOf?, read], by simp [reportFile, read]⟩
  | ok bytes =>
    cases isText : bytes.toText? with
    | none =>
      exact .inr ⟨.notText, by simp [textOf?, read, isText], by simp [reportFile, read, isText]⟩
    | some sql =>
      exact .inl ⟨sql, by simp [textOf?, read, isText], by simp [reportFile, read, isText]⟩

theorem ends_runTask (settings : Settings) (task : Option Task) (w : World) :
    Ends settings task w (runTask settings task w).result := by
  match task with
  | none => exact ends_shell (.inl rfl)
  | some .shell => exact ends_shell (.inr rfl)
  | some .info =>
    refine .done trivial ?_
    rintro ⟨form, sql, found, -⟩
    cases found
  | some (.tokenize sql form) => exact ends_reported rfl
  | some (.file path form) =>
    obtain ⟨record, ⟨sql, found, run⟩ | ⟨cause, missing, run⟩⟩ := reportFile_cases form path w
    · rw [runTask, run]
      exact ends_reported found
    · rw [runTask, run]
      exact ends_unavailable missing

end Endings

/-- A report that is made is made in full. -/
theorem output_runTask (settings : Settings) {task : Option Task} {w : World} {form : ReportForm}
    {sql : String} (found : task.bind (textOf? w) = some (form, sql)) :
    (runTask settings task w).output = bytesOf (Report.body form (scan sql)) := by
  match task with
  | none | some .shell | some .info => cases found
  | some (.tokenize _ _) =>
    cases found
    exact Shell.output_tokenize form sql
  | some (.file path asked) =>
    obtain ⟨record, ⟨text, there, run⟩ | ⟨cause, missing, -⟩⟩ := reportFile_cases asked path w
    · cases there.symm.trans found
      rw [runTask, run, Run.output_after]
      exact Shell.output_tokenize form sql
    · cases missing.symm.trans found

/-! ## Where the environment has no part -/

theorem loadSettings_withLog (config : Option String) (w : World) (value : Option String) :
    loadSettings config (w.withVariable "RUST_LOG" value) = loadSettings config w := by
  have layer : Settings.ofVariables (w.withVariable "RUST_LOG" value).environment =
      Settings.ofVariables w.environment := by
    simp [Settings.ofVariables, World.withVariable]
  unfold loadSettings
  rw [layer]
  rfl

theorem runTask_withVariable (settings : Settings) (task : Option Task) (w : World) (name : String)
    (value : Option String) :
    runTask settings task (w.withVariable name value) = runTask settings task w := rfl

/-! ## Exit codes -/

theorem Ends.exitCode_iff {settings : Settings} {task : Option Task} {w : World}
    {result : Except Fault Unit} (ends : Ends settings task w result) :
    (exitCode result = 2 ↔ Faulty task w) ∧ (exitCode result = 0 ↔ Fulfilled settings task w) ∧
      exitCode result ≤ 2 := by
  cases ends with
  | done fulfilled clean => exact ⟨iff_of_false nofun clean, iff_of_true rfl fulfilled, by decide⟩
  | faulty faulty unfulfilled =>
    exact ⟨iff_of_true rfl faulty, iff_of_false nofun unfulfilled, Nat.le_refl 2⟩
  | failed unfulfilled clean =>
    exact ⟨iff_of_false nofun clean, iff_of_false nofun unfulfilled, Nat.le_succ 1⟩

/-- What the exit code of a run tells, and what is put out with it. -/
structure ExitTells (invocation : Invocation) (w : World) (outcome : Outcome) : Prop where
  faulty : outcome.code = 2 ↔
    ∃ settings, loadSettings invocation.config w = .ok settings ∧ Faulty invocation.task w
  fulfilled : outcome.code = 0 ↔
    ∃ settings, loadSettings invocation.config w = .ok settings ∧
      Fulfilled settings invocation.task w
  failed : outcome.code ≠ 0 → outcome.code ≠ 2 → outcome.code = 1
  /-- A faulty text has been reported on in full. -/
  reported : outcome.code = 2 → ∃ form sql, invocation.task.bind (textOf? w) = some (form, sql) ∧
    outcome.stdout = bytesOf (Report.body form (scan sql))
  /-- The report of a fatal error is the last message and the only one of its kind. -/
  fatal : outcome.code = 1 → ∃ earlier chain, outcome.messages = earlier ++ [.fatal chain] ∧
    Calm (givenSpecs invocation w) earlier
  calm : outcome.code ≠ 1 → Calm (givenSpecs invocation w) outcome.messages
  /-- Statements with faults do not make a session faulty. -/
  session : invocation.task = none ∨ invocation.task = some .shell → outcome.code ≠ 2
  /-- How much is logged has no part in it. -/
  unlogged : ∀ logLevel value,
    let other := execute { invocation with logLevel := logLevel } (w.withVariable "RUST_LOG" value)
    other.code = outcome.code ∧ other.stdout = outcome.stdout

section Codes

variable (invocation : Invocation) (w : World)

theorem code_execute :
    ((execute invocation w).code = 2 ↔ ∃ settings,
      loadSettings invocation.config w = .ok settings ∧ Faulty invocation.task w) ∧
    ((execute invocation w).code = 0 ↔ ∃ settings,
      loadSettings invocation.config w = .ok settings ∧ Fulfilled settings invocation.task w) ∧
    (execute invocation w).code ≤ 2 := by
  cases loaded : loadSettings invocation.config w with
  | error fault => simp [execute, loaded]
  | ok settings =>
    simpa [execute, loaded] using (ends_runTask settings invocation.task w).exitCode_iff

theorem stdout_of_faulty (faulty : (execute invocation w).code = 2) :
    ∃ form sql, invocation.task.bind (textOf? w) = some (form, sql) ∧
      (execute invocation w).stdout = bytesOf (Report.body form (scan sql)) := by
  obtain ⟨settings, loaded, form, sql, found, -⟩ := (code_execute invocation w).1.mp faulty
  refine ⟨form, sql, found, ?_⟩
  simpa [execute, loaded] using output_runTask settings found

theorem execute_unlogged (logLevel value : Option String) :
    let other := execute { invocation with logLevel := logLevel } (w.withVariable "RUST_LOG" value)
    other.code = (execute invocation w).code ∧ other.stdout = (execute invocation w).stdout := by
  intro other
  unfold other execute
  rw [loadSettings_withLog]
  cases loadSettings invocation.config w with
  | error fault => exact ⟨rfl, rfl⟩
  | ok settings =>
    dsimp only
    rw [runTask_withVariable]
    exact ⟨rfl, rfl⟩

theorem farewell_cases (result : Except Fault Unit) :
    (exitCode result = 1 ∧ ∃ chain, farewell result = [.fatal chain]) ∨
      (exitCode result ≠ 1 ∧ farewell result = []) := by
  match result with
  | .ok () | .error (.lexical _ _) => exact .inr ⟨nofun, rfl⟩
  | .error (.io _) | .error (.serialization _) | .error .malformedSettings | .error (.settings _) =>
    exact .inl ⟨rfl, _, rfl⟩

/-- A run that exits with 1 ends with the report of a fatal error, and calm messages are all that is
told besides. -/
theorem messages_execute :
    ∃ earlier, Calm (givenSpecs invocation w) earlier ∧
      ((execute invocation w).code = 1 ∧
          (∃ chain, (execute invocation w).messages = earlier ++ [.fatal chain]) ∨
        (execute invocation w).code ≠ 1 ∧ (execute invocation w).messages = earlier) := by
  cases loaded : loadSettings invocation.config w with
  | error fault =>
    have nothing : Calm (givenSpecs invocation w) [] := ⟨nofun, fun _ => by decide +kernel⟩
    exact ⟨[], nothing, .inl (by simp [execute, loaded, loadFailure])⟩
  | ok settings =>
    obtain ⟨-, -, -, valid⟩ := loadSettings_cases loaded
    refine ⟨_, calm_logged valid invocation w, ?_⟩
    simp only [execute, loaded]
    rcases farewell_cases (runTask settings invocation.task w).result with
      ⟨code, chain, last⟩ | ⟨code, last⟩
    · exact .inl ⟨code, chain, by rw [last]⟩
    · exact .inr ⟨code, by rw [last, List.append_nil]⟩

end Codes

/-- A session goes on over a faulty statement and then stops at a byte that is not text. -/
example :
    let w := worldOf "" [("RUST_LOG", "trace")]
    let stdin := Bytes.ofText "@;\n.tables\n"
    (execute ⟨none, none, none⟩ { w with input := stdin }).code = 0 ∧
    (execute ⟨none, none, none⟩ { w with input := stdin ++ [255] }).code = 1 ∧
    (execute ⟨none, some "off", some (.tokenize "@;" .table)⟩ w).code = 2 := by
  decide +kernel

end Program

end SqlConsole
