import SqlConsole.Fault
import SqlConsole.Log.Record
import SqlConsole.Text.Bytes

/-! What a run does to the outside, as data: texts written in order, flushes and log records,
and the result once they have all succeeded. -/
namespace SqlConsole

inductive Action where
  | write (text : String)
  /-- Writes a structured report. It differs from `write` only in the fault it gives when it
  fails. -/
  | document (text : String)
  | flush
  | log (record : Log.Record)
  deriving DecidableEq, Repr

structure Run where
  actions : List Action
  result : Except Fault Unit

namespace Action

/-- The bytes that the action puts out. -/
def bytes : Action → Bytes
  | write text | document text => Bytes.ofText text
  | flush | log _ => []

def record? : Action → Option Log.Record
  | log record => some record
  | _ => none

end Action

namespace Run

/-- The run that does nothing more. -/
def done : Run := ⟨[], .ok ()⟩

def fail (fault : Fault) : Run := ⟨[], .error fault⟩

/-- Does `actions` first. -/
def after (actions : List Action) (run : Run) : Run := ⟨actions ++ run.actions, run.result⟩

/-- All output, where nothing outside fails. -/
def output (run : Run) : Bytes := run.actions.flatMap Action.bytes

def records (run : Run) : List Log.Record := run.actions.filterMap Action.record?

end Run

end SqlConsole
