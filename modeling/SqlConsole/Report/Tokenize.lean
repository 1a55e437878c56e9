import SqlConsole.Output.Action
import SqlConsole.Report.Structured
import SqlConsole.Report.Table

/-! Reporting on a text: it is scanned and its tokens and faults are written in one of two
forms. A text with faults fails, but only after its report is complete. -/
namespace SqlConsole

inductive ReportForm where
  | table
  | structured
  deriving DecidableEq, Repr

namespace Report

/-- What the scanner logs about a scan. -/
def records (output : ScanOutput) : List Action :=
  (output.faults.map fun f =>
    .log ⟨.trace, Log.scannerTarget, "Лексическая ошибка: " ++ toString f⟩) ++
  [.log ⟨.debug, Log.scannerTarget, "Сканирование завершено: " ++
    toString output.tokens.length ++ " токенов, " ++ toString output.faults.length ++
    " ошибок"⟩]

/-- The list of faults under its heading, or nothing. -/
def faultLines (output : ScanOutput) : List Action :=
  if output.hasFaults then
    [.write "Lexical errors:\n", .write (Table.renderFaults output.faults)]
  else []

def tableLines (output : ScanOutput) : List Action :=
  [.write (Table.render output.tokens)]

def body (form : ReportForm) (output : ScanOutput) : List Action :=
  match form with
  | .table => faultLines output ++ tableLines output
  | .structured => [.document (document output), .write "\n"]

/-- A text with scan faults is itself a fault. -/
def verdict (output : ScanOutput) : Except Fault Unit :=
  if output.hasFaults then .error (Fault.ofScanFaults output.faults) else .ok ()

end Report

/-- Scans `sql` and reports on it. -/
def tokenize (form : ReportForm) (sql : String) : Run :=
  let output := scan sql
  ⟨Report.records output ++ Report.body form output ++ [.flush], Report.verdict output⟩

end SqlConsole
