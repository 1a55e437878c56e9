import SqlConsole.Output.Action

/-! Where the output of a run goes. A sink may have room for so many bytes and no more, and
may allow so many flushes and no more. The first action that fails ends the run. -/
namespace SqlConsole

/-- No bound is written `none`. -/
structure Sink where
  room : Option Nat
  flushes : Option Nat

namespace Sink

def unlimited : Sink := ⟨none, none⟩

/-- Writes bytes: those that go in, and what is left of the sink unless it overflowed. -/
def write (sink : Sink) (bytes : Bytes) : Bytes × Option Sink :=
  match sink.room with
  | none => (bytes, some sink)
  | some room =>
    if bytes.length ≤ room then
      (bytes, some { sink with room := some (room - bytes.length) })
    else (bytes.take room, none)

def flush (sink : Sink) : Option Sink :=
  match sink.flushes with
  | none => some sink
  | some 0 => none
  | some (n + 1) => some { sink with flushes := some n }

/-- One action: the bytes that go in, and the sink left or the fault met. -/
def perform (sink : Sink) : Action → Bytes × Except Fault Sink
  | .write text =>
    let (bytes, left) := sink.write (Bytes.ofText text)
    (bytes, left.elim (.error (.io .outputFull)) .ok)
  | .document text =>
    let (bytes, left) := sink.write (Bytes.ofText text)
    (bytes, left.elim (.error (.serialization .outputFull)) .ok)
  | .flush => ([], sink.flush.elim (.error (.io .flushFailed)) .ok)
  | .log _ => ([], .ok sink)

end Sink

/-- The bytes that arrive in the sink and the result: the first fault met, else `result`. -/
def deliver (result : Except Fault Unit) : Sink → List Action → Bytes × Except Fault Unit
  | _, [] => ([], result)
  | sink, action :: rest =>
    match sink.perform action with
    | (bytes, .error fault) => (bytes, .error fault)
    | (bytes, .ok left) =>
      let (more, final) := deliver result left rest
      (bytes ++ more, final)

def Run.into (run : Run) (sink : Sink) : Bytes × Except Fault Unit :=
  deliver run.result sink run.actions

end SqlConsole
