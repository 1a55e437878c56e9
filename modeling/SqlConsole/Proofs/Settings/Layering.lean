import SqlConsole.Settings.Basic

/-! Layers of settings. However layers are grouped when they are merged, every setting has its
value in the last layer that sets it. So grouping makes no difference, and the defaults, which set
nothing, make none on either side. -/
namespace SqlConsole

namespace Settings

/-! ## One setting -/

section Setting

variable {α : Type} {unset x y : α} {values more : List α}

/-- The last of the values that is not `unset`, or `unset` if there is none. -/
def IsLastSet (unset : α) (values : List α) (x : α) : Prop :=
  (∃ before behind, values = before ++ x :: behind ∧ x ≠ unset ∧ ∀ y ∈ behind, y = unset) ∨
    x = unset ∧ ∀ y ∈ values, y = unset

theorem isLastSet_nil (unset : α) : IsLastSet unset [] unset := .inr ⟨rfl, nofun⟩

theorem isLastSet_singleton (unset x : α) : IsLastSet unset [x] x := by
  by_cases same : x = unset
  · exact .inr ⟨same, by simpa using same⟩
  · exact .inl ⟨[], [], rfl, same, nofun⟩

theorem IsLastSet.append_of_set (behind : IsLastSet unset more x) (set : x ≠ unset) :
    IsLastSet unset (values ++ more) x := by
  rcases behind with ⟨before, later, rfl, -, quiet⟩ | ⟨same, -⟩
  · exact .inl ⟨values ++ before, later, by simp, set, quiet⟩
  · exact absurd same set

theorem IsLastSet.append_of_unset (ahead : IsLastSet unset values x)
    (quiet : ∀ y ∈ more, y = unset) : IsLastSet unset (values ++ more) x := by
  rcases ahead with ⟨before, later, rfl, set, still⟩ | ⟨same, still⟩
  · refine .inl ⟨before, later ++ more, by simp, set, fun y member => ?_⟩
    exact (List.mem_append.mp member).elim (still y) (quiet y)
  · refine .inr ⟨same, fun y member => ?_⟩
    exact (List.mem_append.mp member).elim (still y) (quiet y)

/-- One row of layers over another. -/
theorem IsLastSet.overlay [DecidableEq α] (lower : IsLastSet unset values x)
    (upper : IsLastSet unset more y) :
    IsLastSet unset (values ++ more) (Settings.overlay unset x y) := by
  unfold Settings.overlay
  split
  next same =>
    subst same
    rcases upper with ⟨_, _, _, set, _⟩ | ⟨_, quiet⟩
    · exact absurd rfl set
    · exact lower.append_of_unset quiet
  next set => exact upper.append_of_set set

theorem IsLastSet.eq (first : IsLastSet unset values x) (second : IsLastSet unset values y) :
    x = y := by
  rcases first with ⟨before, behind, split, set, quiet⟩ | ⟨rfl, quiet⟩
  · rcases second with ⟨before', behind', split', set', quiet'⟩ | ⟨-, quiet'⟩
    · -- of two places, the one in front would be followed by a value that is set
      rcases List.append_eq_append_iff.mp (split.symm.trans split') with
        ⟨_ | ⟨z, between⟩, -, rest⟩ | ⟨_ | ⟨z, between⟩, -, rest⟩
      · exact (List.cons.inj rest).1
      · exact absurd (quiet y (by simp [(List.cons.inj rest).2])) set'
      · exact (List.cons.inj rest).1.symm
      · exact absurd (quiet' x (by simp [(List.cons.inj rest).2])) set
    · exact absurd (quiet' x (by simp [split])) set
  · rcases second with ⟨before, behind, split, set, -⟩ | ⟨same, -⟩
    · exact absurd (quiet y (by simp [split])) set
    · exact same.symm

end Setting

/-! ## All settings -/

/-- Layers as they are grouped, the upper ones on the right. -/
inductive Grouping where
  | none
  | layer (s : Settings)
  | stack (lower upper : Grouping)

namespace Grouping

def layers : Grouping → List Settings
  | none => []
  | layer s => [s]
  | stack lower upper => lower.layers ++ upper.layers

/-- The layers merged group by group. Without a layer there are the defaults. -/
def merged : Grouping → Settings
  | none => .default
  | layer s => s
  | stack lower upper => lower.merged.merge upper.merged

end Grouping

/-- Every setting has its value in the last layer that sets it. -/
structure LastSet (layers : List Settings) (s : Settings) : Prop where
  prompt : IsLastSet default.shell.prompt (layers.map (·.shell.prompt)) s.shell.prompt
  continuation :
    IsLastSet default.shell.continuation (layers.map (·.shell.continuation)) s.shell.continuation
  showBanner :
    IsLastSet default.shell.showBanner (layers.map (·.shell.showBanner)) s.shell.showBanner
  showTokens :
    IsLastSet default.shell.showTokens (layers.map (·.shell.showTokens)) s.shell.showTokens
  level : IsLastSet default.level (layers.map (·.level)) s.level

namespace LastSet

variable {layers more : List Settings} {s t : Settings}

theorem nil : LastSet [] default := by
  constructor <;> apply isLastSet_nil

theorem singleton (s : Settings) : LastSet [s] s := by
  constructor <;> apply isLastSet_singleton

theorem merge (lower : LastSet layers s) (upper : LastSet more t) :
    LastSet (layers ++ more) (s.merge t) := by
  constructor <;> rw [List.map_append]
  · exact lower.prompt.overlay upper.prompt
  · exact lower.continuation.overlay upper.continuation
  · exact lower.showBanner.overlay upper.showBanner
  · exact lower.showTokens.overlay upper.showTokens
  · exact lower.level.overlay upper.level

theorem eq (first : LastSet layers s) (second : LastSet layers t) : s = t := by
  obtain ⟨⟨_, _, _, _⟩, _⟩ := s
  obtain ⟨⟨_, _, _, _⟩, _⟩ := t
  congr
  · exact first.prompt.eq second.prompt
  · exact first.continuation.eq second.continuation
  · exact first.showBanner.eq second.showBanner
  · exact first.showTokens.eq second.showTokens
  · exact first.level.eq second.level

end LastSet

theorem lastSet_merged (g : Grouping) : LastSet g.layers g.merged := by
  induction g with
  | none => exact .nil
  | layer s => exact .singleton s
  | stack lower upper below above => exact below.merge above

theorem merged_eq_of_layers {g h : Grouping} (same : g.layers = h.layers) :
    g.merged = h.merged := by
  have both := lastSet_merged h
  rw [← same] at both
  exact (lastSet_merged g).eq both

/-- Layers merged one after the other, over what is merged already. -/
theorem LastSet.foldl {layers : List Settings} {s : Settings} (ahead : LastSet layers s)
    (more : List Settings) : LastSet (layers ++ more) (more.foldl Settings.merge s) := by
  induction more generalizing layers s with
  | nil => simpa using ahead
  | cons next more ih =>
    have further := ih (ahead.merge (.singleton next))
    rwa [List.append_assoc] at further

theorem merged_eq_foldl (g : Grouping) : g.merged = g.layers.foldl merge default :=
  (lastSet_merged g).eq (LastSet.nil.foldl g.layers)

theorem merge_self (s : Settings) : s.merge s = s := by
  simp [merge, overlay]

/-- Layers can be merged in any grouping: the result is that of merging them one by one, and it
has every setting from the last layer that sets it. -/
theorem merge_regroups :
    (∀ g : Grouping, LastSet g.layers g.merged ∧ g.merged = g.layers.foldl merge default) ∧
      (∀ r s t : Settings, (r.merge s).merge t = r.merge (s.merge t)) ∧
      (∀ s : Settings, s.merge s = s) ∧
      ∀ s : Settings, s.merge default = s ∧ default.merge s = s := by
  refine ⟨fun g => ⟨lastSet_merged g, merged_eq_foldl g⟩, fun r s t => ?_, merge_self,
    fun s => ⟨?_, ?_⟩⟩
  · apply merged_eq_of_layers (g := .stack (.stack (.layer r) (.layer s)) (.layer t))
      (h := .stack (.layer r) (.stack (.layer s) (.layer t)))
    rfl
  · apply merged_eq_of_layers (g := .stack (.layer s) .none) (h := .layer s)
    rfl
  · apply merged_eq_of_layers (g := .stack .none (.layer s)) (h := .layer s)
    rfl

end Settings

end SqlConsole
