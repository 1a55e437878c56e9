import SqlConsole.Log.Record
import SqlConsole.Text.Fields
import SqlConsole.Text.Letter
import SqlConsole.Text.Space

/-! Which log records are shown. A specification is a list of directives, each setting a bound
for the targets that begin in a certain way or for all targets. Specifications are read one
after the other: a later directive replaces an earlier one for the same targets, and a record
is judged by the directive that names most of its target. -/
namespace SqlConsole

namespace Log

/-- The least urgent level shown; nothing at all is shown under `none`. -/
abbrev Bound := Option Level

def Bound.rank (b : Bound) : Nat := (b.map Level.rank).getD 0

def bound? (word : String) : Option Bound :=
  match smalls word with
  | "off" => some none
  | "error" => some (some .error)
  | "warn" => some (some .warn)
  | "info" => some (some .info)
  | "debug" => some (some .debug)
  | "trace" => some (some .trace)
  | _ => none

/-- A bound for the targets that begin with `scope`, or for all. -/
structure Directive where
  scope : Option String
  bound : Bound
  deriving DecidableEq, Repr

namespace Directive

/-- Reads one part of a specification. What cannot be read is given back as the text to
complain about. -/
def ofPart (part : String) : Except String Directive :=
  match fieldsOf '=' part with
  | [word] =>
    match bound? word with
    | some bound => .ok ⟨none, bound⟩
    | none => .ok ⟨some word, some .trace⟩
  | [scope, level] =>
    if (trim level).isEmpty then .ok ⟨some scope, some .trace⟩
    else match bound? (trim level) with
      | some bound => .ok ⟨some scope, bound⟩
      | none => .error (trim level)
  | _ => .error part

def covers (d : Directive) (target : String) : Bool :=
  match d.scope with
  | none => true
  | some scope => scope.toList.isPrefixOf target.toList

/-- How much of a target the directive names. -/
def extent (d : Directive) : Nat := (d.scope.map String.length).getD 0

end Directive

/-- A message filter narrows what the directives admit to messages that contain a text. -/
structure Filter where
  directives : List Directive
  containing : Option String
  deriving DecidableEq, Repr

namespace Filter

def empty : Filter := ⟨[], none⟩

/-- Puts a directive in the place of the one for the same targets, or behind all others. -/
def put (directives : List Directive) (d : Directive) : List Directive :=
  if directives.any fun old => old.scope = d.scope then
    directives.map fun old => if old.scope = d.scope then d else old
  else directives ++ [d]

def warning (complaint : String) : String :=
  "warning: invalid logging spec " ++ complaint ++ ", ignoring it\n"

def quoted (text : String) : String := "'" ++ text ++ "'"

def parts (list : String) : List String :=
  ((fieldsOf ',' list).map trim).filter fun part => !part.isEmpty

/-- Reads a list of directives into a filter, with a warning for each part that is none. -/
def addParts (f : Filter) : List String → Filter × List String
  | [] => (f, [])
  | part :: rest =>
    match Directive.ofPart part with
    | .ok d => addParts { f with directives := put f.directives d } rest
    | .error text =>
      let (f, warnings) := addParts f rest
      (f, warning (quoted text) :: warnings)

/-- Reads one more specification: directives, and behind a slash the text that messages must
contain. Only the last specification's text counts. -/
def add (f : Filter) (spec : String) : Filter × List String :=
  match fieldsOf '/' spec with
  | [list] => addParts { f with containing := none } (parts list)
  | [list, text] => addParts { f with containing := some text } (parts list)
  | _ => ({ f with containing := none }, [warning (quoted spec ++ " (too many '/'s)")])

def addAll (f : Filter) : List String → Filter × List String
  | [] => (f, [])
  | spec :: rest =>
    let (f, first) := f.add spec
    let (f, more) := f.addAll rest
    (f, first ++ more)

/-- Of two directives for a target the one that names more of it; if they name as much, the
second. -/
def narrower (best : Option Directive) (d : Directive) : Option Directive :=
  match best with
  | some other => if d.extent < other.extent then best else some d
  | none => some d

/-- The bound for a target. Without any directive only errors are shown. -/
def bound (f : Filter) (target : String) : Bound :=
  if f.directives.isEmpty then some .error
  else
    match (f.directives.filter fun d => d.covers target).foldl narrower none with
    | some d => d.bound
    | none => none

def contains (text : List Char) : List Char → Bool
  | [] => text.isEmpty
  | c :: rest => text.isPrefixOf (c :: rest) || contains text rest

def admits (f : Filter) (r : Record) : Bool :=
  r.level.rank ≤ (f.bound r.target).rank &&
    match f.containing with
    | none => true
    | some text => contains text.toList r.message.toList

end Filter

end Log

end SqlConsole
