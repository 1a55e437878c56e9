import Mathlib.Data.List.Induction
import SqlConsole.Log.Filter

/-! Which directive decides for a target when several lists of directives were read one after the
other. A directive takes the place of an earlier one for the same targets only, so a bound for all
targets never takes back one that names the target. -/
namespace SqlConsole

namespace Log

/-! ## Bounds -/

theorem Bound.rank_injective {b other : Bound} (same : b.rank = other.rank) : b = other := by
  cases b with
  | none =>
    cases other with
    | none => rfl
    | some level => cases level <;> cases same
  | some level =>
    cases other with
    | none => cases level <;> cases same
    | some level' => cases level <;> cases level' <;> first | rfl | cases same

/-- A bound is told by the levels that it lets through. -/
theorem Bound.eq_of_levels {b other : Bound}
    (same : ∀ level : Level, level.rank ≤ b.rank ↔ level.rank ≤ other.rank) : b = other := by
  have within {b other : Bound}
      (through : ∀ level : Level, level.rank ≤ b.rank → level.rank ≤ other.rank) :
      b.rank ≤ other.rank := by
    cases b with
    | none => exact Nat.zero_le _
    | some level => exact through level (Nat.le_refl _)
  apply rank_injective
  apply Nat.le_antisymm
  · exact within fun level => (same level).mp
  · exact within fun level => (same level).mpr

/-! ## Directives for a target -/

namespace Directive

variable {d other : Directive} {target : String}

/-- The directive is one for certain targets only, and this is among them. -/
def Names (d : Directive) (target : String) : Prop := d.scope.isSome ∧ d.covers target

instance : Decidable (d.Names target) := inferInstanceAs (Decidable (_ ∧ _))

/-- Two beginnings of a target that are as long as each other are the same. -/
theorem Names.scope_eq (names : d.Names target) (also : other.Names target)
    (same : d.extent = other.extent) : d.scope = other.scope := by
  obtain ⟨scope, bound⟩ := d
  obtain ⟨scope', bound'⟩ := other
  cases scope with
  | none => cases names.1
  | some s =>
    cases scope' with
    | none => cases also.1
    | some s' =>
      have first : s.toList <+: target.toList := List.isPrefixOf_iff_prefix.mp names.2
      have second : s'.toList <+: target.toList := List.isPrefixOf_iff_prefix.mp also.2
      have length : s.toList.length = s'.toList.length := by
        simpa [extent, String.length_toList] using same
      have equal : s.toList = s'.toList :=
        (List.prefix_of_prefix_length_le first second (Nat.le_of_eq length)).eq_of_length length
      exact congrArg some (String.toList_inj.mp equal)

end Directive

/-- Of the directives given with its scope the last. -/
def Latest (given : List Directive) (d : Directive) : Prop :=
  (given.filter fun other => other.scope = d.scope).getLast? = some d

/-- The directive given that decides for a target: no other that names it names more of it, and
it was not replaced. -/
structure Governs (given : List Directive) (target : String) (d : Directive) : Prop where
  names : d.Names target
  latest : Latest given d
  longest : ∀ other ∈ given, other.Names target → other.extent ≤ d.extent

theorem Latest.mem {given : List Directive} {d : Directive} (latest : Latest given d) :
    d ∈ given :=
  (List.mem_filter.mp (List.mem_of_getLast? latest)).1

theorem Latest.eq_of_scope {given : List Directive} {d other : Directive}
    (latest : Latest given d) (also : Latest given other) (same : d.scope = other.scope) :
    d = other := by
  unfold Latest at latest also
  rw [← same, latest] at also
  exact Option.some.inj also

theorem latest_append_singleton {given : List Directive} {d new : Directive} :
    Latest (given ++ [new]) d ↔ d = new ∨ Latest given d ∧ d.scope ≠ new.scope := by
  unfold Latest
  rw [List.filter_append]
  by_cases same : new.scope = d.scope
  · simp [same, eq_comm]
  · have different : d ≠ new := fun equal => same (congrArg Directive.scope equal.symm)
    simp [same, Ne.symm same, different]

/-- For every scope that is given there is a last directive with it. -/
theorem exists_latest {given : List Directive} {d : Directive} (mem : d ∈ given) :
    ∃ last, Latest given last ∧ last.scope = d.scope := by
  have found : d ∈ given.filter fun other => other.scope = d.scope := by simp [mem]
  obtain ⟨last, isLast⟩ := List.getLast?_isSome.mpr (List.ne_nil_of_mem found)
    |> Option.isSome_iff_exists.mp
  have same : last.scope = d.scope := by
    simpa using (List.mem_filter.mp (List.mem_of_getLast? isLast)).2
  refine ⟨last, ?_, same⟩
  unfold Latest
  rw [same, isLast]

theorem Governs.eq {given : List Directive} {target : String} {d other : Directive}
    (governs : Governs given target d) (also : Governs given target other) : d = other := by
  apply governs.latest.eq_of_scope also.latest
  apply governs.names.scope_eq also.names
  apply Nat.le_antisymm
  · exact also.longest d governs.latest.mem governs.names
  · exact governs.longest other also.latest.mem also.names

namespace Filter

/-! ## Putting directives -/

theorem mem_put {directives : List Directive} {d e : Directive} :
    e ∈ put directives d ↔ e = d ∨ e ∈ directives ∧ e.scope ≠ d.scope := by
  unfold put
  split
  next replaced =>
    obtain ⟨old, mem, same⟩ := List.any_eq_true.mp replaced
    constructor
    · intro found
      obtain ⟨before, memBefore, equal⟩ := List.mem_map.mp found
      split at equal
      next => exact .inl equal.symm
      next other => exact .inr (equal ▸ ⟨memBefore, other⟩)
    · rintro (rfl | ⟨kept, other⟩)
      · exact List.mem_map.mpr ⟨old, mem, if_pos (by simpa using same)⟩
      · exact List.mem_map.mpr ⟨e, kept, if_neg other⟩
  next new =>
    have other : e ∈ directives → e.scope ≠ d.scope := by
      intro mem same
      exact new (List.any_eq_true.mpr ⟨e, mem, by simpa using same⟩)
    simp only [List.mem_append, List.mem_singleton]
    constructor
    · rintro (mem | rfl)
      · exact .inr ⟨mem, other mem⟩
      · exact .inl rfl
    · rintro (rfl | ⟨mem, -⟩)
      · exact .inr rfl
      · exact .inl mem

theorem put_unscoped {rest : List Directive} (hasScope : ∀ d ∈ rest, d.scope.isSome)
    (old new : Bound) : put (⟨none, old⟩ :: rest) ⟨none, new⟩ = ⟨none, new⟩ :: rest := by
  have kept : (rest.map fun d => if d.scope = none then ⟨none, new⟩ else d) = rest := by
    rw [List.map_congr_left (g := id), List.map_id]
    intro d mem
    have some := hasScope d mem
    simp only [id, ite_eq_right_iff]
    intro none
    simp [none] at some
  simp [put, kept]

theorem put_scoped {rest : List Directive} {d : Directive} (hasScope : d.scope.isSome)
    (bound : Bound) : put (⟨none, bound⟩ :: rest) d = ⟨none, bound⟩ :: put rest d := by
  have other : (none : Option String) ≠ d.scope := by
    intro none
    simp [← none] at hasScope
  unfold put
  simp only [List.any_cons, other, decide_false, Bool.false_or, List.map_cons, if_false]
  split
  · rfl
  · rfl

/-- The directives that are left of those given for certain targets, the last one for each. -/
def LastScoped (given rest : List Directive) : Prop :=
  ∀ d, d ∈ rest ↔ d.scope.isSome ∧ Latest given d

/-- What is left of the directives given on top of a bound for all targets: one such bound, and
behind it the last directive for every scope. -/
def Layered (given directives : List Directive) : Prop :=
  ∃ bound rest, directives = ⟨none, bound⟩ :: rest ∧ LastScoped given rest

theorem Layered.put_unscoped {given directives : List Directive}
    (layered : Layered given directives) (bound : Bound) :
    ∃ rest, put directives ⟨none, bound⟩ = ⟨none, bound⟩ :: rest ∧ LastScoped given rest := by
  obtain ⟨old, rest, rfl, members⟩ := layered
  exact ⟨rest, Filter.put_unscoped (fun d mem => ((members d).mp mem).1) old bound, members⟩

theorem Layered.put {given directives : List Directive} (layered : Layered given directives)
    (new : Directive) : Layered (given ++ [new]) (put directives new) := by
  obtain ⟨scope, level⟩ := new
  cases scope with
  | none =>
    obtain ⟨rest, now, members⟩ := layered.put_unscoped level
    refine ⟨level, rest, now, fun d => ?_⟩
    rw [members d, latest_append_singleton]
    constructor
    · rintro ⟨hasScope, latest⟩
      exact ⟨hasScope, .inr ⟨latest, Option.isSome_iff_ne_none.mp hasScope⟩⟩
    · rintro ⟨hasScope, rfl | ⟨latest, -⟩⟩
      · cases hasScope
      · exact ⟨hasScope, latest⟩
  | some scope =>
    obtain ⟨bound, rest, rfl, members⟩ := layered
    refine ⟨bound, Filter.put rest ⟨some scope, level⟩, put_scoped rfl bound, fun d => ?_⟩
    rw [mem_put, members d, latest_append_singleton]
    constructor
    · rintro (rfl | ⟨⟨hasScope, latest⟩, other⟩)
      · exact ⟨rfl, .inl rfl⟩
      · exact ⟨hasScope, .inr ⟨latest, other⟩⟩
    · rintro ⟨hasScope, rfl | ⟨latest, other⟩⟩
      · exact .inl rfl
      · exact .inr ⟨⟨hasScope, latest⟩, other⟩

theorem layered_foldl_put (given : List Directive) (bound : Bound) :
    Layered given (given.foldl put [⟨none, bound⟩]) := by
  induction given using List.reverseRecOn with
  | nil =>
    refine ⟨bound, [], rfl, fun d => ?_⟩
    simp [Latest]
  | append_singleton given new ih =>
    rw [List.foldl_append]
    exact ih.put new

/-! ## The directive that decides -/

theorem exists_narrowest {directives : List Directive} (nonempty : directives ≠ []) :
    ∃ d ∈ directives, directives.foldl narrower none = some d ∧
      ∀ other ∈ directives, other.extent ≤ d.extent := by
  induction directives using List.reverseRecOn with
  | nil => exact absurd rfl nonempty
  | append_singleton directives new ih =>
    simp only [List.foldl_append, List.foldl_cons, List.foldl_nil, List.mem_append,
      List.mem_singleton]
    cases directives with
    | nil => exact ⟨new, .inr rfl, rfl, by simp⟩
    | cons first more =>
      obtain ⟨best, mem, isBest, longest⟩ := ih (List.cons_ne_nil first more)
      rw [isBest, narrower]
      split
      next shorter =>
        refine ⟨best, .inl mem, rfl, ?_⟩
        rintro other (mem | rfl)
        · exact longest other mem
        · exact Nat.le_of_lt shorter
      next =>
        refine ⟨new, .inr rfl, rfl, ?_⟩
        rintro other (mem | rfl)
        · have := longest other mem
          omega
        · exact Nat.le_refl _

/-- A bound for all targets in front gives way to any directive behind it. -/
theorem foldl_narrower_unscoped {directives : List Directive} (nonempty : directives ≠ [])
    (bound : Bound) :
    directives.foldl narrower (some ⟨none, bound⟩) = directives.foldl narrower none := by
  cases directives with
  | nil => exact absurd rfl nonempty
  | cons first rest => simp [narrower, Directive.extent]

variable {given rest : List Directive} {bound : Bound} {containing : Option String}
  {target : String} {d : Directive}

theorem LastScoped.mem_covering (last : LastScoped given rest) :
    d ∈ rest.filter (·.covers target) ↔ d.Names target ∧ Latest given d := by
  rw [List.mem_filter, last d]
  constructor
  · rintro ⟨⟨hasScope, latest⟩, covers⟩
    exact ⟨⟨hasScope, covers⟩, latest⟩
  · rintro ⟨⟨hasScope, covers⟩, latest⟩
    exact ⟨⟨hasScope, latest⟩, covers⟩

/-- A directive that was replaced named no more than the one in its place. -/
theorem LastScoped.exists_covering (last : LastScoped given rest) (mem : d ∈ given)
    (names : d.Names target) :
    ∃ other ∈ rest.filter (·.covers target), other.extent = d.extent := by
  obtain ⟨other, latest, same⟩ := exists_latest mem
  refine ⟨other, last.mem_covering.mpr ⟨?_, latest⟩, by simp [Directive.extent, same]⟩
  simpa [Directive.Names, Directive.covers, same] using names

theorem bound_of_foldl
    (found : (rest.filter (·.covers target)).foldl narrower (some ⟨none, bound⟩) = some d) :
    Filter.bound ⟨⟨none, bound⟩ :: rest, containing⟩ target = d.bound := by
  have front : ((⟨none, bound⟩ :: rest).filter (·.covers target)).foldl narrower none = some d := by
    rw [List.filter_cons_of_pos rfl]
    exact found
  simp only [Filter.bound, List.isEmpty_cons, Bool.false_eq_true, if_false]
  rw [front]

/-- The directive that governs a target decides for it, and without one the bound for all targets
in front of the others. -/
theorem LastScoped.bound_cases (last : LastScoped given rest) :
    (∃ d, Governs given target d ∧
      Filter.bound ⟨⟨none, bound⟩ :: rest, containing⟩ target = d.bound) ∨
    (∀ d ∈ given, ¬ d.Names target) ∧
      Filter.bound ⟨⟨none, bound⟩ :: rest, containing⟩ target = bound := by
  by_cases unnamed : rest.filter (·.covers target) = []
  · right
    constructor
    · intro d mem names
      obtain ⟨other, covering, -⟩ := last.exists_covering mem names
      simp [unnamed] at covering
    · apply @bound_of_foldl _ _ _ _ ⟨none, bound⟩
      rw [unnamed]
      rfl
  · left
    obtain ⟨d, covering, isBest, longest⟩ := exists_narrowest unnamed
    obtain ⟨names, latest⟩ := last.mem_covering.mp covering
    refine ⟨d, ⟨names, latest, fun other mem named => ?_⟩, ?_⟩
    · obtain ⟨kept, covering, extent⟩ := last.exists_covering mem named
      rw [← extent]
      exact longest kept covering
    · apply bound_of_foldl
      rw [foldl_narrower_unscoped unnamed, isBest]

end Filter

end Log

end SqlConsole
