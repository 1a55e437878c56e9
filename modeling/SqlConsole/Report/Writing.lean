import SqlConsole.Output.Port
import SqlConsole.Report.Tokenize

/-! A report as it is written, call by call. -/
namespace SqlConsole

open Out

/-- Scans `sql` and logs it as the scanner does. -/
def scanLogged (sql : String) : Out ScanOutput := do
  let output := scan sql
  performAll (Report.records output)
  return output

namespace Report

def writeFaults (output : ScanOutput) : Out Unit := do
  if output.hasFaults then
    write "Lexical errors:\n"
    write (Table.renderFaults output.faults)

def writeTable (output : ScanOutput) : Out Unit := do
  writeFaults output
  write (Table.render output.tokens)

def writeStructured (output : ScanOutput) : Out Unit := do
  Out.document (document output)
  write "\n"

end Report

/-- Scans `sql` and writes the report on it. -/
def tokenizeTo (form : ReportForm) (sql : String) : Out Unit := do
  let output ← scanLogged sql
  match form with
  | .table => Report.writeTable output
  | .structured => Report.writeStructured output
  flush
  if output.hasFaults then
    throw (Fault.ofScanFaults output.faults)

end SqlConsole
