import SqlConsole.Binary64.Basic

/-! Values of a configuration document and the building of its tables. A table remembers how
it came to be, because that decides who may still add to it: a header may complete a table
that only other headers implied, a dotted key may add to what dotted keys made, and nobody
adds to an inline table. -/
namespace SqlConsole

namespace Toml

inductive Origin where
  /-- Opened by a header of its own. -/
  | header
  /-- Named within the path of a header. -/
  | implied
  /-- Named within a dotted key. -/
  | dotted
  | inline
  deriving DecidableEq, Repr

inductive Value where
  | string (text : String)
  | boolean (value : Bool)
  | integer (value : Int)
  | real (value : Binary64)
  /-- A date, a time or both, as written. -/
  | moment (text : String)
  | array (items : List Value)
  | table (origin : Origin) (entries : List (String × Value))
  /-- Tables under one repeated header. -/
  | tables (rows : List (List (String × Value)))

/-- The entries of a table in the order of their keys' first appearance. -/
abbrev Entries := List (String × Value)

namespace Entries

def get? (entries : Entries) (key : String) : Option Value :=
  (entries.find? fun entry => entry.1 = key).map (·.2)

def set (entries : Entries) (key : String) (value : Value) : Entries :=
  entries.map fun entry => if entry.1 = key then (key, value) else entry

def add? (entries : Entries) (key : String) (value : Value) : Option Entries :=
  match entries.get? key with
  | none => some (entries ++ [(key, value)])
  | some _ => none

/-- Adds a value under a dotted key. The tables on the way are made as needed; one that is
there must not have a header, and the last of them must come from a dotted key. -/
def insert? : List String → Value → Entries → Option Entries
  | [], _, _ => none
  | [key], value, entries => entries.add? key value
  | key :: next :: rest, value, entries =>
    match entries.get? key with
    | none => do
      let inner ← insert? (next :: rest) value []
      return entries ++ [(key, .table .dotted inner)]
    | some (.table origin inner) =>
      if origin = .dotted ∨ (origin = .implied ∧ rest ≠ []) then do
        let inner ← insert? (next :: rest) value inner
        return entries.set key (.table origin inner)
      else none
    | some _ => none

/-- Changes the table under a path of headers. The tables on the way are implied as needed;
of repeated tables the last is meant. -/
def within? (change : Entries → Option Entries) : List String → Entries → Option Entries
  | [], entries => change entries
  | key :: rest, entries =>
    match entries.get? key with
    | none => do
      let inner ← within? change rest []
      return entries ++ [(key, .table .implied inner)]
    | some (.table origin inner) =>
      if origin = .inline then none
      else do
        let inner ← within? change rest inner
        return entries.set key (.table origin inner)
    | some (.tables rows) => do
      let inner ← within? change rest (rows.getLast?.getD [])
      return entries.set key (.tables (rows.dropLast ++ [inner]))
    | some _ => none

/-- Opens the table `key` by a header: a new one, or one that is only implied so far. -/
def openTable? (key : String) (entries : Entries) : Option Entries :=
  match entries.get? key with
  | none => some (entries ++ [(key, .table .header [])])
  | some (.table .implied inner) => some (entries.set key (.table .header inner))
  | some _ => none

def openRow? (key : String) (entries : Entries) : Option Entries :=
  match entries.get? key with
  | none => some (entries ++ [(key, .tables [[]])])
  | some (.tables rows) => some (entries.set key (.tables (rows ++ [[]])))
  | some _ => none

end Entries

end Toml

end SqlConsole
