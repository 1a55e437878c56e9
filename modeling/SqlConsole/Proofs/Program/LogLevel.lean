import SqlConsole.Program
import SqlConsole.Proofs.Log.Directives
import SqlConsole.Proofs.Text.LetterCase
import SqlConsole.Proofs.Text.Lines
import SqlConsole.Proofs.Text.Separators

/-! Which log records are shown when a log level is given with the arguments. The level takes the
place of the configured one and of any bound for all targets in `RUST_LOG`. A directive there that
names a target is not taken back: for its targets it decides, whatever the level. -/
namespace SqlConsole

namespace Log

/-! ## What a specification states -/

/-- The directives that a specification states, in their order. A part that cannot be read states
none, and neither does a specification with more than one slash. -/
def directivesOf (spec : String) : List Directive :=
  match fieldsOf '/' spec with
  | [list] | [list, _] => (Filter.parts list).filterMap fun part => (Directive.ofPart part).toOption
  | _ => []

namespace Filter

theorem addParts_eq (f : Filter) (parts : List String) :
    (f.addParts parts).1 =
      ⟨(parts.filterMap fun part => (Directive.ofPart part).toOption).foldl put f.directives,
        f.containing⟩ := by
  induction parts generalizing f with
  | nil => rfl
  | cons part rest ih =>
    cases read : Directive.ofPart part with
    | ok d => simp only [addParts, read, ih, List.filterMap_cons, Except.toOption, List.foldl_cons]
    | error text => simp only [addParts, read, ih, List.filterMap_cons, Except.toOption]

theorem add_directives (f : Filter) (spec : String) :
    (f.add spec).1.directives = (directivesOf spec).foldl put f.directives := by
  unfold add directivesOf
  generalize fieldsOf '/' spec = cut
  rcases cut with _ | ⟨list, _ | ⟨text, _ | ⟨more, rest⟩⟩⟩
  · rfl
  · rw [addParts_eq]
  · rw [addParts_eq]
  · rfl

theorem addAll_append (f : Filter) (specs more : List String) :
    (f.addAll (specs ++ more)).1 = ((f.addAll specs).1.addAll more).1 := by
  induction specs generalizing f with
  | nil => rfl
  | cons spec specs ih => exact ih (f.add spec).1

theorem addAll_directives (f : Filter) (specs : List String) :
    (f.addAll specs).1.directives = (specs.flatMap directivesOf).foldl put f.directives := by
  induction specs generalizing f with
  | nil => rfl
  | cons spec specs ih =>
    have step : (f.addAll (spec :: specs)).1 = ((f.add spec).1.addAll specs).1 := rfl
    rw [step, ih, add_directives, List.flatMap_cons, List.foldl_append]

end Filter

/-! ## A level as a specification -/

theorem mem_logLevels_iff {word : String} :
    smalls word ∈ logLevels ↔ ∃ bound, bound? word = some bound := by
  simp only [logLevels, List.mem_cons, List.not_mem_nil, or_false]
  constructor
  · rintro (level | level | level | level | level | level) <;> simp [bound?, level]
  · rintro ⟨bound, known⟩
    unfold bound? at known
    split at known <;> simp_all

variable {word : String}

theorem isLetter_of_mem (known : smalls word ∈ logLevels) {c : Char} (mem : c ∈ word.toList) :
    isLetter c = true := by
  have letters : ∀ level ∈ logLevels, level.toList.all isLetter = true := by decide
  have isSmall : small c ∈ (smalls word).toList := by
    rw [smalls, String.toList_ofList]
    exact List.mem_map_of_mem mem
  rcases small_cases c with same | letter
  · rw [← same]
    exact List.all_eq_true.mp (letters _ known) _ isSmall
  · exact letter

/-- The name of a level is one word: it is not cut anywhere, and nothing is trimmed. -/
theorem fieldsOf_level {separator : Char} (known : smalls word ∈ logLevels)
    (other : isLetter separator = false) : fieldsOf separator word = [word] := by
  apply fieldsOf_eq_self
  intro mem
  simp [isLetter_of_mem known mem] at other

theorem trim_level (known : smalls word ∈ logLevels) : trim word = word := by
  apply trim_eq_self
  constructor
  · intro c first
    exact isSpace_of_isLetter (isLetter_of_mem known (List.mem_of_head? first))
  · intro c last
    exact isSpace_of_isLetter (isLetter_of_mem known (List.mem_of_getLast? last))

/-- Read as a specification, a level is a bound for all targets, and asks for no text. -/
theorem add_level {bound : Bound} (known : bound? word = some bound) (f : Filter) :
    (f.add word).1 = ⟨Filter.put f.directives ⟨none, bound⟩, none⟩ := by
  have level : smalls word ∈ logLevels := mem_logLevels_iff.mpr ⟨bound, known⟩
  have slashes := @fieldsOf_level word '/' level rfl
  have commas := @fieldsOf_level word ',' level rfl
  have equals := @fieldsOf_level word '=' level rfl
  have nonempty : word ≠ "" := by
    rintro rfl
    cases known
  have parts : Filter.parts word = [word] := by
    simp [Filter.parts, commas, trim_level level, nonempty]
  have read : Directive.ofPart word = .ok ⟨none, bound⟩ := by
    simp only [Directive.ofPart, equals, known]
  simp only [Filter.add, slashes, parts, Filter.addParts, read]

end Log

namespace Program

open Log (Directive Governs)

/-! ## The filter of a run -/

/-- The directives in the environment. -/
def givenDirectives (w : World) : List Directive :=
  (w.environment "RUST_LOG").toList.flatMap Log.directivesOf

/-- The filter shows the records of a target that are within the bound, and no others. -/
def Decides (filter : Log.Filter) (target : String) (bound : Log.Bound) : Prop :=
  ∀ level message,
    filter.admits ⟨level, target, message⟩ = true ↔ level.rank ≤ bound.rank

theorem decides_of_bound {filter : Log.Filter} {target : String} {bound : Log.Bound}
    (whole : filter.containing = none) (found : filter.bound target = bound) :
    Decides filter target bound := by
  intro level message
  simp [Log.Filter.admits, whole, found]

theorem Decides.eq {filter : Log.Filter} {target : String} {bound other : Log.Bound}
    (decides : Decides filter target bound) (also : Decides filter target other) :
    bound = other := by
  apply Log.Bound.eq_of_levels
  intro level
  rw [← decides level "", also level ""]

section

variable {settings : Settings} {level : String} {bound : Log.Bound}

theorem level_of_validate (valid : settings.validate = .ok ()) :
    smalls settings.level ∈ logLevels := by
  unfold Settings.validate at valid
  split at valid
  · cases valid
  · split at valid
    · cases valid
    · split at valid
      next known => exact known
      next => cases valid

/-- The last specification is the level of the arguments: its bound stands in front of what the
environment gives for certain targets, and no text is asked for. -/
theorem logFilter_level (valid : settings.validate = .ok ()) (known : Log.bound? level = some bound)
    (w : World) :
    ∃ rest, (logFilter settings (some level) w).1 = ⟨⟨none, bound⟩ :: rest, none⟩ ∧
      Log.Filter.LastScoped (givenDirectives w) rest := by
  obtain ⟨configured, isLevel⟩ := Log.mem_logLevels_iff.mp (level_of_validate valid)
  have start := Log.add_level isLevel .empty
  have steps : (logFilter settings (some level) w).1 =
      (((Log.Filter.empty.add settings.level).1.addAll
        (w.environment "RUST_LOG").toList).1.add level).1 :=
    Log.Filter.addAll_append (Log.Filter.empty.add settings.level).1 _ [level]
  have layered := Log.Filter.layered_foldl_put (givenDirectives w) configured
  obtain ⟨rest, now, last⟩ := layered.put_unscoped bound
  refine ⟨rest, ?_, last⟩
  rw [steps, Log.add_level known, Log.Filter.addAll_directives, start, ← now]
  rfl

/-- One directive governs a target and decides for it, or there is none and the level of the
arguments decides. -/
theorem decides_logFilter (valid : settings.validate = .ok ())
    (known : Log.bound? level = some bound) (w : World) (target : String) :
    (∃ d, Governs (givenDirectives w) target d ∧
      Decides (logFilter settings (some level) w).1 target d.bound) ∨
    (∀ d, ¬ Governs (givenDirectives w) target d) ∧
      Decides (logFilter settings (some level) w).1 target bound := by
  obtain ⟨rest, built, last⟩ := logFilter_level valid known w
  rw [built]
  rcases last.bound_cases with ⟨d, governs, found⟩ | ⟨unnamed, found⟩
  · exact .inl ⟨d, governs, decides_of_bound rfl found⟩
  · refine .inr ⟨fun d governs => ?_, decides_of_bound rfl found⟩
    exact unnamed d governs.latest.mem governs.names

/-- For a target that no directive in the environment names, the level of the arguments decides,
whatever is configured. A directive that governs the target decides in its place, so the level
decides everywhere just when these directives say the same. -/
theorem log_level_yields_to_named_targets (valid : settings.validate = .ok ())
    (known : Log.bound? level = some bound) (w : World) (target : String) :
    let filter := (logFilter settings (some level) w).1
    (∀ d, Governs (givenDirectives w) target d → Decides filter target d.bound) ∧
      ((¬ ∃ d, Governs (givenDirectives w) target d) → Decides filter target bound) ∧
      (Decides filter target bound ↔
        ∀ d, Governs (givenDirectives w) target d → d.bound = bound) := by
  intro filter
  rcases decides_logFilter valid known w target with ⟨best, governs, decides⟩ | ⟨none, decides⟩
  · have ruled (d : Directive) (also : Governs (givenDirectives w) target d) :
        Decides filter target d.bound := by
      rw [also.eq governs]
      exact decides
    refine ⟨ruled, fun none => absurd ⟨best, governs⟩ none, ?_⟩
    constructor
    · intro level d also
      exact (ruled d also).eq level
    · intro same
      rw [← same best governs]
      exact decides
  · exact ⟨fun d governs => absurd governs (none d), fun _ => decides,
      fun _ d governs => absurd governs (none d), fun _ => decides⟩

end

/-- A world without files whose environment asks for all records of the lexer. -/
def lexerTraced : World where
  environment name := if name = "RUST_LOG" then some "miniql::lexer=trace" else none
  files _ := .error .notFound
  input := []
  system := ""
  architecture := ""

/-- The lexer's directive decides for the scanner and leaves the shell to the level. -/
theorem log_level_beside_lexer_directive :
    Settings.default.validate = .ok () ∧ Log.bound? "error" = some (some .error) ∧
      Decides (logFilter .default (some "error") lexerTraced).1 Log.scannerTarget (some .trace) ∧
      Decides (logFilter .default (some "error") lexerTraced).1 Log.shellTarget (some .error) := by
  have valid : Settings.default.validate = .ok () := rfl
  have known : Log.bound? "error" = some (some .error) := rfl
  have given : givenDirectives lexerTraced = [⟨some "miniql::lexer", some .trace⟩] := by
    decide +kernel
  have ruled := log_level_yields_to_named_targets valid known lexerTraced
  refine ⟨valid, known, (ruled Log.scannerTarget).1 ⟨some "miniql::lexer", some .trace⟩ ?_,
    (ruled Log.shellTarget).2.1 ?_⟩
  · rw [given]
    exact ⟨by decide, rfl, by simp⟩
  · rintro ⟨d, governs⟩
    have mem := governs.latest.mem
    rw [given, List.mem_singleton] at mem
    subst mem
    exact absurd governs.names (by decide)

/-- The level of the arguments shows no records but errors, yet a directive for the lexer has a
report of the scanner shown that is not there without the directive. -/
theorem log_level_overruled :
    let invocation : Invocation := ⟨none, some "error", some (.tokenize "1" .table)⟩
    let unset : World := { lexerTraced with environment := fun _ => none }
    Settings.default.validate = .ok () ∧ Log.bound? "error" = some (some .error) ∧
      ¬ Log.Level.debug.rank ≤ Log.Bound.rank (some .error) ∧
      (execute invocation lexerTraced).stderr =
        "[DEBUG miniql::lexer::scanner] Сканирование завершено: 2 токенов, 0 ошибок\n" ∧
      (execute invocation unset).stderr = "" := by
  decide +kernel

end Program

end SqlConsole
