import SqlConsole.Proofs.Output.Calls
import SqlConsole.Proofs.Output.Truncation

/-! Sessions and reports into a sink that may fail. A session writes plain text only. A structured
report is one document and a newline, which fail in different ways. -/
namespace SqlConsole

open Run

/-! ## Structured reports -/

theorem output_tokenize_structured (sql : String) :
    (tokenize .structured sql).output =
      Bytes.ofText (Report.document (scan sql)) ++ Bytes.ofText "\n" := by
  rw [Shell.output_tokenize]
  simp [Report.body, Action.bytes]

/-- Where a structured report breaks off, its document or its last newline is too much. -/
theorem tokenize_structured_limited (sql : String) (room : Nat) :
    (tokenize .structured sql).into ⟨some room, none⟩ =
      ((tokenize .structured sql).output.take room,
        if room < (tokenize .structured sql).output.length - 1 then
          .error (.serialization .outputFull)
        else if room = (tokenize .structured sql).output.length - 1 then .error (.io .outputFull)
        else (tokenize .structured sql).result) := by
  have whole := actions_tokenize_structured sql
  have output := output_tokenize_structured sql
  have silent := Shell.bytesOf_records (scan sql)
  have newline : (Bytes.ofText "\n").length = 1 := by decide
  have length := congrArg List.length output
  rw [List.length_append, newline] at length
  rw [length, Nat.add_sub_cancel]
  generalize Report.document (scan sql) = text at whole output length ⊢
  by_cases short : room < (Bytes.ofText text).length
  · obtain ⟨fault, fails, broken⟩ := into_refuses ⟨some room, none⟩ whole
      (takes_limited.mpr (by simp [silent]))
      (by simpa [takes_limited, silent, Action.bytes] using short)
    cases fails
    rw [broken, if_pos short, output, List.take_append_of_le_length (by omega)]
    simp [Sink.cut, silent, Action.bytes]
  · rw [if_neg short]
    by_cases exact : room = (Bytes.ofText text).length
    · obtain ⟨fault, fails, broken⟩ := into_refuses ⟨some room, none⟩
        (whole.trans (List.append_cons _ _ _))
        (takes_limited.mpr (by simp [silent, Action.bytes, exact]))
        (by simp [takes_limited, silent, Action.bytes, exact, newline])
      cases fails
      rw [broken, if_pos exact, output]
      simp [Sink.cut, silent, Action.bytes]
    · have takes : Sink.Takes ⟨some room, none⟩ (tokenize .structured sql).actions := by
        refine takes_limited.mpr ?_
        change (tokenize .structured sql).output.length ≤ room
        omega
      rw [into_takes takes, if_neg exact, List.take_of_length_le (by omega)]

/-- The session and the report that are carried out call by call leave in every sink what their runs
leave. A sink with limited room holds the first bytes of the full output, and the result tells what
could not be written. Whatever fails, the output is the beginning of the full one and the result is
that of the first action that is too much; scan faults are told only behind a whole report. -/
theorem failing_sink_truncates (settings : ShellSettings) (input : Bytes) (sql : String)
    (form : ReportForm) :
    (∀ sink, (Shell.converse settings input).into sink = (Shell.run settings input).into sink) ∧
    (∀ sink, (tokenizeTo form sql).into sink = (tokenize form sql).into sink) ∧
    (∀ room, (Shell.run settings input).into ⟨some room, none⟩ =
      let full := (Shell.run settings input).into .unlimited
      (full.1.take room, if room < full.1.length then .error (.io .outputFull) else full.2)) ∧
    (∀ room, (tokenize .table sql).into ⟨some room, none⟩ =
      let full := (tokenize .table sql).into .unlimited
      (full.1.take room, if room < full.1.length then .error (.io .outputFull) else full.2)) ∧
    (∀ room, (tokenize .structured sql).into ⟨some room, none⟩ =
      let full := (tokenize .structured sql).into .unlimited
      (full.1.take room,
        if room < full.1.length - 1 then .error (.serialization .outputFull)
        else if room = full.1.length - 1 then .error (.io .outputFull) else full.2)) ∧
    (∀ sink count first, ((tokenize form sql).into sink).2 = .error (.lexical count first) →
      (tokenize form sql).into sink = (tokenize form sql).into .unlimited) ∧
    (∀ sink, (Shell.run settings input).BrokenOff sink ∧
      ((Shell.run settings input).into sink).1 <+:
        ((Shell.run settings input).into .unlimited).1) ∧
    ∀ sink, (tokenize form sql).BrokenOff sink ∧
      ((tokenize form sql).into sink).1 <+: ((tokenize form sql).into .unlimited).1 := by
  simp only [into_unlimited]
  refine ⟨?_, ?_, ?_, ?_, ?_, ?_, ?_, ?_⟩
  · intro sink
    rw [Shell.converse_eq, Out.into_ofRun]
  · intro sink
    rw [tokenizeTo_eq, Out.into_ofRun]
  · intro room
    exact into_limited (Shell.plain_run settings input) room
  · intro room
    exact into_limited (plain_tokenize_table sql) room
  · intro room
    exact tokenize_structured_limited sql room
  · intro sink count first lexical
    rw [into_eq_of_lexical lexical, into_unlimited]
  · intro sink
    exact ⟨brokenOff _ sink, into_prefix _ sink⟩
  · intro sink
    exact ⟨brokenOff _ sink, into_prefix _ sink⟩

theorem failing_sink_truncates_stray :
    ((tokenize .table "@").into ⟨none, some 1⟩).2 =
        .error (.lexical 1 (some ⟨.unexpectedCharacter '@', .start⟩)) ∧
      (tokenize .table "@").into ⟨none, some 1⟩ = (tokenize .table "@").into .unlimited := by
  have told : ((tokenize .table "@").into ⟨none, some 1⟩).2 =
      .error (.lexical 1 (some ⟨.unexpectedCharacter '@', .start⟩)) := by
    decide +kernel
  obtain ⟨-, -, -, -, -, complete, -⟩ := failing_sink_truncates .default [] "@" .table
  exact ⟨told, complete _ _ _ told⟩

end SqlConsole
