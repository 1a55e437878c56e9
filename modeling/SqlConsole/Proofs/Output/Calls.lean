import SqlConsole.Proofs.Shell.Transcript
import SqlConsole.Shell.Conversation

/-! Procedures and runs. A procedure makes its calls one by one and ends with the first that fails;
a run lists them beforehand. The report and the session, as procedures, leave in every sink what
their runs leave. -/
namespace SqlConsole

namespace Out

theorem run_perform (action : Action) (port : Port) :
    (perform action).run.run port =
      match port.sink.perform action with
      | (bytes, .ok left) => (.ok (), ⟨left, port.written ++ bytes⟩)
      | (bytes, .error fault) => (.error fault, ⟨port.sink, port.written ++ bytes⟩) := rfl

theorem run_bind (first : Out α) (next : α → Out β) (port : Port) :
    (first >>= next).run.run port =
      match first.run.run port with
      | (.ok value, left) => (next value).run.run left
      | (.error fault, left) => (.error fault, left) := by
  rw [ExceptT.run_bind, StateT.run_bind]
  rcases first.run.run port with ⟨fault | value, left⟩
  · rfl
  · rfl

theorem performAll_singleton (action : Action) : performAll [action] = perform action := by
  simp only [performAll, bind_pure_unit]

theorem performAll_append (first second : List Action) :
    performAll (first ++ second) = performAll first >>= fun _ => performAll second := by
  induction first with
  | nil => rw [performAll, pure_bind, List.nil_append]
  | cons action first ih => simp only [List.cons_append, performAll, ih, bind_assoc]

/-- The procedure that makes the calls of a run. -/
def ofRun (run : Run) : Out Unit := do
  performAll run.actions
  MonadExcept.ofExcept run.result

theorem ofRun_ok (actions : List Action) : ofRun ⟨actions, .ok ()⟩ = performAll actions :=
  bind_pure_unit

theorem ofRun_after (actions : List Action) (run : Run) :
    ofRun (run.after actions) = performAll actions >>= fun _ => ofRun run := by
  simp only [ofRun, Run.after, performAll_append, bind_assoc]

/-- The calls fill the sink as the actions are delivered. -/
theorem run_ofRun (run : Run) (port : Port) :
    ∃ left, (ofRun run).run.run port =
      ((run.into port.sink).2, ⟨left, port.written ++ (run.into port.sink).1⟩) := by
  obtain ⟨actions, result⟩ := run
  induction actions generalizing port with
  | nil =>
    refine ⟨port.sink, ?_⟩
    rw [Run.into, deliver, List.append_nil]
    cases result <;> rfl
  | cons action rest ih =>
    have split : ofRun ⟨action :: rest, result⟩ =
        perform action >>= fun _ => ofRun ⟨rest, result⟩ := by
      simp only [ofRun, performAll, bind_assoc]
    rw [split, run_bind, run_perform]
    simp only [Run.into, deliver] at ih ⊢
    rcases port.sink.perform action with ⟨bytes, fault | behind⟩
    · exact ⟨port.sink, rfl⟩
    · obtain ⟨left, delivered⟩ := ih ⟨behind, port.written ++ bytes⟩
      refine ⟨left, ?_⟩
      rw [List.append_assoc] at delivered
      exact delivered

theorem into_ofRun (run : Run) (sink : Sink) : (ofRun run).into sink = run.into sink := by
  obtain ⟨left, delivered⟩ := run_ofRun run ⟨sink, []⟩
  rw [into, delivered]
  rfl

end Out

open Out

/-! ## Reports -/

namespace Report

theorem writeFaults_eq (output : ScanOutput) :
    writeFaults output = performAll (faultLines output) := by
  unfold writeFaults faultLines
  split
  · simp only [performAll, write, bind_pure_unit]
  · rfl

theorem writeTable_eq (output : ScanOutput) :
    writeTable output = performAll (body .table output) := by
  rw [writeTable, writeFaults_eq, body, performAll_append, tableLines, performAll_singleton, write]

theorem writeStructured_eq (output : ScanOutput) :
    writeStructured output = performAll (body .structured output) := by
  simp only [writeStructured, body, performAll, Out.document, write, bind_pure_unit]

theorem ofExcept_verdict (output : ScanOutput) :
    (MonadExcept.ofExcept (verdict output) : Out Unit) =
      if output.hasFaults then throw (Fault.ofScanFaults output.faults) else pure () := by
  unfold verdict
  split <;> rfl

end Report

/-- The report as it is written is the report as it is listed. -/
theorem tokenizeTo_eq (form : ReportForm) (sql : String) :
    tokenizeTo form sql = ofRun (tokenize form sql) := by
  have listed : ofRun (tokenize form sql) = (do
      performAll (Report.records (scan sql))
      performAll (Report.body form (scan sql))
      perform .flush
      MonadExcept.ofExcept (Report.verdict (scan sql))) := by
    simp only [ofRun, tokenize, performAll_append, performAll_singleton, bind_assoc]
  rw [listed, Report.ofExcept_verdict, tokenizeTo, scanLogged, flush]
  cases form with
  | table => simp only [Report.writeTable_eq, bind_assoc, pure_bind]
  | structured => simp only [Report.writeStructured_eq, bind_assoc, pure_bind]

/-! ## Sessions -/

namespace Shell

variable (settings : ShellSettings)

theorem showPrompt_eq (buffer : Buffer) :
    showPrompt settings buffer = performAll (ask settings buffer) := by
  simp only [showPrompt, ask, performAll, write, flush, bind_pure_unit]

theorem processStatement_eq (statement : String) :
    processStatement settings statement = performAll (answer settings statement) := by
  have table (output : ScanOutput) :
      (if settings.showTokens then write (Table.render output.tokens) else pure ()) =
        performAll (if settings.showTokens then Report.tableLines output else []) := by
    split
    · exact (performAll_singleton _).symm
    · rfl
  simp only [processStatement, scanLogged, answer, log, performAll, performAll_append, bind_assoc,
    pure_bind, Report.writeFaults_eq, table]

theorem processCommand_eq (line : String) : processCommand line = (do
    performAll (.log ⟨.debug, Log.shellTarget, "Мета-команда: " ++ line⟩ ::
      (Command.ofLine line).response line)
    return Command.ofLine line ≠ .leave) := by
  simp only [processCommand, log, performAll, bind_assoc]

/-- A session whose loop is over flushes. Then it has made the calls of its run. -/
theorem loop_flush (buffer : Buffer) (raws : List Bytes) :
    (loop settings buffer raws >>= fun _ => flush) = ofRun (session settings buffer raws) := by
  induction raws generalizing buffer with
  | nil =>
    have last : ofRun ending = write "\n" >>= fun _ => flush := by
      simp only [ending, ofRun_ok, performAll, write, flush, bind_pure_unit]
    rw [session, ofRun_after, loop, showPrompt_eq, last, bind_assoc]
  | cons raw rest ih =>
    rw [loop, showPrompt_eq, session, replyRaw, readText]
    cases raw.toText? with
    | none =>
      simp only [ofRun_after, bind_assoc]
      rfl
    | some line =>
      simp only [pure_bind, bind_assoc, reply]
      generalize trim line = line
      split
      · simp only [ih, ofRun_after, List.append_nil]
      split
      · simp only [processCommand_eq, bind_assoc, pure_bind, decide_eq_true_eq]
        by_cases leave : Command.ofLine line = .leave
        · rw [if_pos leave, if_neg (not_not_intro leave)]
          simp only [ofRun_after, ofRun_ok, performAll_append, performAll_singleton, pure_bind,
            flush]
        · rw [if_neg leave, if_pos leave]
          simp only [ofRun_after, performAll_append, bind_assoc, ih]
      · rcases buffer.push line with ⟨next, none | statement⟩
        · simp only [ofRun_after, List.append_nil, ih]
        · simp only [ofRun_after, performAll_append, processStatement_eq, bind_assoc, ih]

theorem converse_eq (input : Bytes) : converse settings input = ofRun (run settings input) := by
  rw [converse, run, ofRun_after, ← loop_flush, opening]
  split <;> rfl

end Shell

end SqlConsole
