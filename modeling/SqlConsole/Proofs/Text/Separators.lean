import Mathlib.Data.List.Basic
import SqlConsole.Proofs.Text.Place

/-! Separators tell where parts end: the first one where no part in front has any, the last one
where no part behind has any. So a text is cut into lines in one way. -/
namespace SqlConsole

variable {α : Type} {separator : α}

theorem append_separator_inj {first second rest more : List α} (free : separator ∉ first)
    (also : separator ∉ second) (same : first ++ separator :: rest = second ++ separator :: more) :
    first = second ∧ rest = more := by
  induction first generalizing second with
  | nil =>
    cases second with
    | nil => exact ⟨rfl, (List.cons.inj same).2⟩
    | cons x second =>
      have equal : separator = x := (List.cons.inj same).1
      simp [equal] at also
  | cons x first ih =>
    obtain ⟨other, free⟩ := List.ne_and_not_mem_of_not_mem_cons free
    cases second with
    | nil => exact absurd (List.cons.inj same).1.symm other
    | cons y second =>
      obtain ⟨rfl, tail⟩ := List.cons.inj same
      obtain ⟨rfl, rests⟩ := ih free (List.not_mem_of_not_mem_cons also) tail
      exact ⟨rfl, rests⟩

theorem append_last_separator_inj {first second rest more : List α} (free : separator ∉ rest)
    (also : separator ∉ more) (same : first ++ separator :: rest = second ++ separator :: more) :
    first = second ∧ rest = more := by
  have backwards := congrArg List.reverse same
  simp only [List.reverse_append, List.reverse_cons, List.append_assoc,
    List.singleton_append] at backwards
  obtain ⟨rests, firsts⟩ :=
    append_separator_inj (by simpa using free) (by simpa using also) backwards
  exact ⟨List.reverse_injective firsts, List.reverse_injective rests⟩

/-- Text up to and including one newline. -/
def IsLine (line : List Char) : Prop := ∃ text, '\n' ∉ text ∧ line = text ++ ['\n']

theorem eq_of_flatten_eq {lines more : List (List Char)} (cut : ∀ line ∈ lines, IsLine line)
    (also : ∀ line ∈ more, IsLine line) (same : lines.flatten = more.flatten) : lines = more := by
  induction lines generalizing more with
  | nil =>
    cases more with
    | nil => rfl
    | cons line more =>
      obtain ⟨text, -, rfl⟩ := also _ List.mem_cons_self
      simp at same
  | cons line lines ih =>
    obtain ⟨⟨text, free, rfl⟩, cutRest⟩ := List.forall_mem_cons.mp cut
    cases more with
    | nil => simp at same
    | cons other more =>
      obtain ⟨⟨text', free', rfl⟩, alsoRest⟩ := List.forall_mem_cons.mp also
      simp only [List.flatten_cons, List.append_assoc, List.singleton_append] at same
      obtain ⟨rfl, rests⟩ := append_separator_inj free free' same
      rw [ih cutRest alsoRest rests]

/-! ## Fields -/

section Fields

variable {separator : Char} {front text : List Char} {s part : String}

theorem fields_separator_append (text rest : List Char) :
    fields separator (text ++ separator :: rest) =
      fields separator text ++ fields separator rest := by
  induction text with
  | nil => simp [fields]
  | cons c text ih =>
    by_cases same : c = separator
    · simp [fields, same, ih]
    · obtain ⟨first, more, found, cut⟩ := fields_cons_of_ne same text
      rw [found] at ih
      rw [cut, List.cons_append, fields, if_neg same, ih]
      rfl

/-- Text in front of the first separator joins the first field. -/
theorem fields_append_of_free (free : separator ∉ front) {first : List Char}
    {more : List (List Char)} (cut : fields separator text = first :: more) :
    fields separator (front ++ text) = (front ++ first) :: more := by
  induction front with
  | nil => exact cut
  | cons c front ih =>
    obtain ⟨other, free⟩ := List.ne_and_not_mem_of_not_mem_cons free
    rw [List.cons_append, fields, if_neg (Ne.symm other), ih free]
    rfl

theorem fields_eq_singleton (free : separator ∉ text) : fields separator text = [text] := by
  have whole : fields separator (text ++ []) = [text ++ []] := fields_append_of_free free rfl
  rwa [List.append_nil] at whole

theorem fieldsOf_eq_self (free : separator ∉ s.toList) : fieldsOf separator s = [s] := by
  rw [fieldsOf, fields_eq_singleton free, List.map_singleton, String.ofList_toList]

/-- The fields of a text have no characters of their own. -/
theorem subset_of_mem_fields {field : List Char} (member : field ∈ fields separator text) :
    field ⊆ text := by
  induction text generalizing field with
  | nil =>
    obtain rfl := List.mem_singleton.mp member
    exact List.nil_subset _
  | cons c text ih =>
    obtain ⟨first, more, cut⟩ := List.exists_cons_of_ne_nil (fields_ne_nil separator text)
    have behind : ∀ field ∈ first :: more, field ⊆ c :: text := fun field later =>
      List.subset_cons_of_subset c (ih (cut ▸ later))
    obtain ⟨firstInside, moreInside⟩ := List.forall_mem_cons.mp behind
    rw [fields, cut] at member
    split at member
    · rcases List.mem_cons.mp member with rfl | later
      · exact List.nil_subset _
      · exact behind _ later
    · rcases List.mem_cons.mp member with rfl | later
      · exact List.cons_subset.mpr ⟨List.mem_cons_self, firstInside⟩
      · exact moreInside _ later

theorem subset_of_mem_fieldsOf (member : part ∈ fieldsOf separator s) :
    part.toList ⊆ s.toList := by
  obtain ⟨field, inside, rfl⟩ := List.mem_map.mp member
  rw [String.toList_ofList]
  exact subset_of_mem_fields inside

end Fields

end SqlConsole
