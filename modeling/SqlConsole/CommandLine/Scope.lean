import SqlConsole.CommandLine.Usage

/-! The arguments of one command, read from left to right. A value is checked not when it is
met but when the next option or argument is, or at the end; until then it is pending. This
decides which of two faults is reported. -/
namespace SqlConsole

namespace CommandLine

/-- What an argument gives a value to. -/
inductive Slot where
  | config | logLevel | sql | path | format
  deriving DecidableEq, Repr

/-- The values a slot takes. -/
def Slot.accepts : Slot → String → Bool
  | logLevel, _ | sql, _ => true
  | config, value | path, value => !value.isEmpty
  | format, value => value = "table" || value = "json"

/-- What the name of an option stands for. -/
inductive Switch where
  | takes (slot : Slot)
  | help
  | version
  deriving DecidableEq, Repr

/-- The options of a command, by letter and by name, the slot for its argument without a name,
and the commands that may follow it. -/
structure Scope where
  options : List (Option Char × String × Switch)
  positional : Option Slot
  nested : List String

namespace Scope

def short? (s : Scope) (letter : Char) : Option Switch :=
  (s.options.find? fun option => option.1 = some letter).map (·.2.2)

def long? (s : Scope) (name : String) : Option Switch :=
  (s.options.find? fun option => option.2.1 = name).map (·.2.2)

end Scope

structure Progress where
  values : List (Slot × String)
  /-- The last slot met and its value, if it has one already. -/
  pending : Option (Slot × Option String)
  /-- Whether `--` was met: then nothing is an option or a command any more. -/
  trailing : Bool
  /-- Whether the argument without a name was met. -/
  placed : Bool

namespace Progress

def start : Progress := ⟨[], none, false, false⟩

/-- Whether the next argument is the value of an option. -/
def isWaiting (p : Progress) : Bool :=
  !p.trailing && match p.pending with
    | some (_, none) => true
    | _ => false

def value? (p : Progress) (slot : Slot) : Option String :=
  (p.values.find? fun entry => entry.1 = slot).map (·.2)

/-- Takes a value. A missing one is reported first, then a second one for the same slot, then
one that the slot does not take. -/
def assign (p : Progress) (slot : Slot) (value : Option String) : Except Usage Progress :=
  match value with
  | none => .error .invalidValue
  | some text =>
    if (p.value? slot).isSome then .error .argumentConflict
    else if slot.accepts text then .ok { p with values := p.values ++ [(slot, text)] }
    else .error .invalidValue

/-- Takes the pending value. -/
def settle (p : Progress) : Except Usage Progress :=
  match p.pending with
  | none => .ok p
  | some (slot, value) => assign { p with pending := none } slot value

/-- An option by its switch, with the value attached to it if there is one. -/
def option (p : Progress) (switch : Switch) (attached : Option String) :
    Except Usage Progress := do
  match switch, attached with
  | .takes slot, none => return { ← p.settle with pending := some (slot, none) }
  | .takes slot, some value => (← p.settle).assign slot (some value)
  | _, some _ => throw .tooManyValues
  | .help, none => let _ ← p.settle; throw .displayHelp
  | .version, none => let _ ← p.settle; throw .displayVersion

end Progress

/-- A name and the value attached to it by an equals sign. -/
def attachment (text : List Char) : String × Option String :=
  let name := String.ofList (text.takeWhile (· ≠ '='))
  match text.dropWhile (· ≠ '=') with
  | [] => (name, none)
  | _ :: value => (name, some (String.ofList value))

/-- The value written directly behind an option letter. -/
def attachedValue : List Char → Option String
  | [] => none
  | '=' :: value => some (String.ofList value)
  | value => some (String.ofList value)

namespace Scope

/-- Letters behind a single dash. The first one that takes a value takes the rest for it. -/
def letters (s : Scope) (p : Progress) : List Char → Except Usage Progress
  | [] => .ok p
  | letter :: rest =>
    match s.short? letter with
    | none => .error .unknownArgument
    | some (.takes slot) => p.option (.takes slot) (attachedValue rest)
    | some switch => do letters s (← p.option switch none) rest

/-- An argument without a name. -/
def place (s : Scope) (p : Progress) (arg : String) : Except Usage Progress := do
  match s.positional, p.placed with
  | some slot, false =>
    return { ← p.settle with pending := some (slot, some arg), placed := true }
  | _, _ =>
    if s.nested.isEmpty ∨ (p.trailing ∧ arg ∈ s.nested) then throw .unknownArgument
    else throw .invalidSubcommand

/-- One argument that is not the name of a command. -/
def step (s : Scope) (p : Progress) (arg : String) : Except Usage Progress :=
  if p.trailing then s.place p arg
  else
    match arg.toList with
    | ['-', '-'] => .ok { p with trailing := true }
    | '-' :: '-' :: text =>
      let (name, value) := attachment text
      match s.long? name with
      | none => .error .unknownArgument
      | some switch => p.option switch value
    | '-' :: letter :: rest => s.letters p (letter :: rest)
    | _ =>
      match p.isWaiting, p.pending with
      | true, some (slot, _) => .ok { p with pending := some (slot, some arg) }
      | _, _ => s.place p arg

/-- All arguments of a command without further commands. -/
def read (s : Scope) (args : List String) : Except Usage Progress := do
  let p ← (← args.foldlM s.step Progress.start).settle
  match s.positional with
  | some slot => if (p.value? slot).isSome then return p else throw .missingArgument
  | none => return p

end Scope

end CommandLine

end SqlConsole
