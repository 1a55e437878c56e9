/-! Why arguments give nothing to run: they ask for help or for the version, or they are at
fault. -/
namespace SqlConsole

inductive Usage where
  | displayHelp
  | displayVersion
  | unknownArgument
  | invalidValue
  | missingArgument
  /-- An option given twice. -/
  | argumentConflict
  | invalidSubcommand
  /-- A value attached to an option that takes none. -/
  | tooManyValues
  deriving DecidableEq, Repr

/-- Asking is no fault. -/
def Usage.exitCode : Usage → Nat
  | displayHelp | displayVersion => 0
  | _ => 2

end SqlConsole
