import SqlConsole.Log.Filter
import SqlConsole.Proofs.Text.Separators

/-! What is complained about in log specifications. A warning quotes what it complains about, a
specification or a part of one, and its own words are on one line. -/
namespace SqlConsole

theorem subset_of_trim (s : String) : (trim s).toList ⊆ s.toList := by
  have back : trimEnd (trimStart s.toList) ⊆ trimStart s.toList := by
    intro c inside
    have reversed := (List.dropWhile_sublist isSpace).subset (List.mem_reverse.mp inside)
    exact List.mem_reverse.mp reversed
  rw [trim, String.toList_ofList]
  exact List.Subset.trans back (List.dropWhile_sublist isSpace).subset

namespace Log

theorem subset_of_ofPart {part complaint : String}
    (bad : Directive.ofPart part = .error complaint) : complaint.toList ⊆ part.toList := by
  unfold Directive.ofPart at bad
  split at bad
  · split at bad <;> cases bad
  next scope level cut =>
    have inside : level ∈ fieldsOf '=' part := by simp [cut]
    split at bad
    · cases bad
    · split at bad
      · cases bad
      · cases bad
        exact List.Subset.trans (subset_of_trim level) (subset_of_mem_fieldsOf inside)
  · cases bad
    exact List.Subset.refl _

namespace Filter

variable {f : Filter} {spec message : String}

/-- The warning quotes nothing that is not in the specification. -/
def Quotes (spec message : String) : Prop :=
  ∃ text remark, message = warning (quoted text ++ remark) ∧ text.toList ⊆ spec.toList ∧
    '\n' ∉ remark.toList

theorem quotes_of_mem_addParts {parts : List String}
    (inside : ∀ part ∈ parts, part.toList ⊆ spec.toList)
    (member : message ∈ (f.addParts parts).2) : Quotes spec message := by
  induction parts generalizing f with
  | nil => cases member
  | cons part parts ih =>
    obtain ⟨here, later⟩ := List.forall_mem_cons.mp inside
    unfold addParts at member
    split at member
    · exact ih later member
    next bad =>
      rcases List.mem_cons.mp member with rfl | behind
      · have whole := List.Subset.trans (subset_of_ofPart bad) here
        exact ⟨_, "", by rw [String.append_empty], whole, by decide⟩
      · exact ih later behind

theorem subset_of_mem_parts {list part : String} (member : part ∈ parts list) :
    part.toList ⊆ list.toList := by
  obtain ⟨field, inside, rfl⟩ := List.mem_map.mp (List.mem_filter.mp member).1
  exact List.Subset.trans (subset_of_trim field) (subset_of_mem_fieldsOf inside)

theorem quotes_of_mem_add (member : message ∈ (f.add spec).2) : Quotes spec message := by
  have within {list : String} (cut : list ∈ fieldsOf '/' spec) :
      ∀ part ∈ parts list, part.toList ⊆ spec.toList := fun part inside =>
    List.Subset.trans (subset_of_mem_parts inside) (subset_of_mem_fieldsOf cut)
  unfold add at member
  split at member
  next list cut => exact quotes_of_mem_addParts (within (by simp [cut])) member
  next list text cut => exact quotes_of_mem_addParts (within (by simp [cut])) member
  · obtain rfl := List.mem_singleton.mp member
    exact ⟨spec, " (too many '/'s)", rfl, List.Subset.refl _, by decide⟩

theorem quotes_of_mem_addAll {specs : List String} (member : message ∈ (f.addAll specs).2) :
    ∃ spec ∈ specs, Quotes spec message := by
  induction specs generalizing f with
  | nil => cases member
  | cons spec specs ih =>
    rcases List.mem_append.mp member with here | later
    · exact ⟨spec, List.mem_cons_self, quotes_of_mem_add here⟩
    · obtain ⟨other, behind, quotes⟩ := ih later
      exact ⟨other, List.mem_cons_of_mem _ behind, quotes⟩

end Filter

end Log

end SqlConsole
