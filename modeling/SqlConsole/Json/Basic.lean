import SqlConsole.Binary64.Basic

/-! Structured report values. The members of an object keep the order in which they are
given. -/
namespace SqlConsole

inductive Json where
  | null
  | boolean (value : Bool)
  | natural (value : Nat)
  | real (value : Binary64)
  | string (value : String)
  | array (items : List Json)
  | object (members : List (String × Json))

end SqlConsole
