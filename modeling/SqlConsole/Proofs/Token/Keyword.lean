import SqlConsole.Token.Kind

/-! Looking up keywords. The spellings among which a word is looked up are the names of the
keywords, one for each, so a word finds the keyword whose name its capitals are. Among the kinds
of tokens, the keywords are those that a word can find. -/
namespace SqlConsole

namespace Keyword

/-- Every keyword is found under its own name. -/
theorem lookup_name (k : Keyword) : spellings.lookup k.name = some k := by
  cases k <;> decide

/-- Nothing is found under any other name. -/
theorem name_of_mem_spellings {spelling : String} {k : Keyword}
    (member : (spelling, k) ∈ spellings) : spelling = k.name := by
  have named : ∀ entry ∈ spellings, entry.1 = entry.2.name := by decide
  exact named (spelling, k) member

theorem ofWord?_eq_some_iff {word : String} {k : Keyword} :
    ofWord? word = some k ↔ capitals word = k.name := by
  constructor
  · intro found
    obtain ⟨ahead, behind, split, -⟩ := List.lookup_eq_some_iff.mp found
    apply name_of_mem_spellings
    rw [split]
    exact List.mem_append_right ahead List.mem_cons_self
  · intro same
    rw [ofWord?, same, lookup_name]

theorem name_injective {k l : Keyword} (same : k.name = l.name) : k = l := by
  have found := lookup_name k
  rw [same, lookup_name] at found
  exact (Option.some.inj found).symm

end Keyword

namespace TokenKind

variable {kind : TokenKind}

theorem isKeyword_iff : kind.isKeyword = true ↔ ∃ k, kind = .keyword k := by
  cases kind with
  | keyword k => simp [isKeyword, k.mem_all]
  | _ => simp [isKeyword]

theorem map_ofWord?_eq_some_iff {word : String} : (Keyword.ofWord? word).map keyword = some kind ↔
    kind.isKeyword = true ∧ capitals word = kind.displayName := by
  rw [Option.map_eq_some_iff, isKeyword_iff]
  constructor
  · rintro ⟨k, found, rfl⟩
    exact ⟨⟨k, rfl⟩, Keyword.ofWord?_eq_some_iff.mp found⟩
  · rintro ⟨⟨k, rfl⟩, same⟩
    exact ⟨k, Keyword.ofWord?_eq_some_iff.mpr same, rfl⟩

end TokenKind

end SqlConsole
