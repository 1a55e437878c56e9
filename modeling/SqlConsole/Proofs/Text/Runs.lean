/-! Runs of characters of one class at the front of a text. A run ends where the first character
outside the class stands, or with the text. -/
namespace SqlConsole

theorem head?_dropWhile (p : Char → Bool) (text : List Char) :
    ∀ c ∈ (text.dropWhile p).head?, p c = false := by
  intro c first
  have outside := List.head?_dropWhile_not p text
  rw [Option.mem_def.mp first] at outside
  simpa using outside

theorem takeWhile_of_stop {p : Char → Bool} {text behind : List Char}
    (inside : ∀ c ∈ text, p c = true) (outside : ∀ c ∈ behind.head?, p c = false) :
    (text ++ behind).takeWhile p = text ∧ (text ++ behind).dropWhile p = behind := by
  rw [List.takeWhile_append_of_pos inside, List.dropWhile_append_of_pos inside]
  cases behind with
  | nil => simp
  | cons c behind => simp [outside c rfl]

end SqlConsole
