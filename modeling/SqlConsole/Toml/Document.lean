import SqlConsole.Toml.Reader

/-! The tables of a configuration document: its statements applied in order. -/
namespace SqlConsole

namespace Toml

namespace Reader

/-- One statement applied to the document and the path of the table chosen last. -/
def Statement.step? (state : List String × Entries) : Statement → Option (List String × Entries)
  | .header path => do
    let entries ← state.2.within? (Entries.openTable? (path.getLast?.getD "")) path.dropLast
    return (path, entries)
  | .rowHeader path => do
    let entries ← state.2.within? (Entries.openRow? (path.getLast?.getD "")) path.dropLast
    return (path, entries)
  | .entry path value => do
    let entries ← state.2.within? (Entries.insert? path value) state.1
    return (state.1, entries)

end Reader

/-- The entries of the document that a text holds. A byte order mark in front is passed
over. -/
def read? (text : String) : Option Entries := do
  let chars := match text.toList with
    | '\ufeff' :: rest => rest
    | chars => chars
  let statements ← Reader.statements? (chars.length + 1) chars
  let (_, entries) ← statements.foldlM Reader.Statement.step? ([], [])
  return entries

end Toml

end SqlConsole
