/-! Splitting a text at every separator. There is always one field more than there are
separators, so a text without any is a single field. -/
namespace SqlConsole

/-- The fields between the separators, empty ones included. -/
def fields (separator : Char) : List Char → List (List Char)
  | [] => [[]]
  | c :: rest =>
    if c = separator then [] :: fields separator rest
    else match fields separator rest with
      | [] => [[c]]
      | first :: more => (c :: first) :: more

def fieldsOf (separator : Char) (s : String) : List String :=
  (fields separator s.toList).map String.ofList

theorem fields_ne_nil (separator : Char) (text : List Char) : fields separator text ≠ [] := by
  intro none
  cases text with
  | nil => simp [fields] at none
  | cons c rest =>
    unfold fields at none
    split at none
    · cases none
    · split at none <;> cases none

end SqlConsole
