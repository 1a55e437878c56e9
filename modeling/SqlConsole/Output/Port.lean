import SqlConsole.Output.Sink

/-! Output call by call. Each call does one action and hands on the fault that it meets, so what
stands behind a call that fails is not reached. -/
namespace SqlConsole

/-- What is left of a sink, and what has gone into it. -/
structure Port where
  sink : Sink
  written : Bytes

/-- A procedure with output. -/
abbrev Out := ExceptT Fault (StateM Port)

namespace Out

def perform (action : Action) : Out Unit := ExceptT.mk fun port =>
  match port.sink.perform action with
  | (bytes, .ok left) => (.ok (), ⟨left, port.written ++ bytes⟩)
  | (bytes, .error fault) => (.error fault, ⟨port.sink, port.written ++ bytes⟩)

def write (text : String) : Out Unit := perform (.write text)

def document (text : String) : Out Unit := perform (.document text)

def flush : Out Unit := perform .flush

def log (entry : Log.Record) : Out Unit := perform (.log entry)

/-- One call after the other. -/
def performAll : List Action → Out Unit
  | [] => return
  | action :: rest => do
    perform action
    performAll rest

/-- The bytes that a procedure leaves in a sink, and its result. -/
def into (procedure : Out Unit) (sink : Sink) : Bytes × Except Fault Unit :=
  let (result, port) := procedure.run.run ⟨sink, []⟩
  (port.written, result)

end Out

end SqlConsole
