import SqlConsole.Program
import SqlConsole.Proofs.Log.Warnings
import SqlConsole.Proofs.Output.Plain
import SqlConsole.Proofs.Program.LogLevel

/-! The messages of a run as they look. Each is on lines of its own. Only the report of a fatal
error begins a line as such a report does, unless a log specification that is complained about
holds a newline, since it is quoted as it stands. -/
namespace SqlConsole

/-- How the report of a fatal error begins. -/
def Message.alarm : String := "Fatal error:"

/-- A line of the text begins so. -/
def LineBegins (start text : String) : Prop :=
  ∃ line ∈ fields '\n' text.toList, start.toList <+: line

instance (start text : String) : Decidable (LineBegins start text) :=
  inferInstanceAs (Decidable (∃ line ∈ fields '\n' text.toList, _))

/-- The line begins with another character than an alarm does. -/
def Unlike (line : List Char) : Prop := ∃ c ∈ line.head?, c ≠ 'F'

/-- The text is made of whole lines, none of which could be an alarm. -/
def Quiet (text : String) : Prop :=
  ∃ body, text.toList = body ++ ['\n'] ∧ ∀ line ∈ fields '\n' body, Unlike line

/-- Quiet texts in a row make no line that begins with an alarm. -/
theorem not_lineBegins_join {texts : List String} (quiet : ∀ text ∈ texts, Quiet text) :
    ¬ LineBegins Message.alarm (String.join texts) := by
  induction texts with
  | nil => decide +kernel
  | cons text texts ih =>
    obtain ⟨⟨body, whole, unlike⟩, later⟩ := List.forall_mem_cons.mp quiet
    rintro ⟨line, member, begins⟩
    rw [String.join_cons, String.toList_append, whole, List.append_assoc, List.singleton_append,
      fields_separator_append] at member
    rcases List.mem_append.mp member with here | behind
    · obtain ⟨c, first, other⟩ := unlike line here
      obtain ⟨rest, rfl⟩ := begins
      have alarm : Message.alarm.toList.head? = some 'F' := by simp [Message.alarm]
      rw [List.head?_append, alarm] at first
      exact other (Option.some.inj first).symm
    · exact ih later ⟨line, behind, begins⟩

/-- A text is quiet if it begins so and only whole lines that are no alarm follow. -/
theorem quiet_of_front {text : String} {front behind line : List Char} {more : List (List Char)}
    {c : Char} (whole : text.toList = front ++ behind ++ ['\n']) (first : front.head? = some c)
    (other : c ≠ 'F') (free : '\n' ∉ front) (cut : fields '\n' behind = line :: more)
    (unlike : ∀ line ∈ more, Unlike line) : Quiet text := by
  refine ⟨front ++ behind, whole, ?_⟩
  rw [fields_append_of_free free cut]
  refine List.forall_mem_cons.mpr ⟨⟨c, ?_, other⟩, unlike⟩
  rw [List.head?_append, first]
  rfl

/-! ## Warnings -/

theorem quiet_warning {complaint : String} (free : '\n' ∉ complaint.toList) :
    Quiet (Log.Filter.warning complaint) := by
  have begins : "warning: invalid logging spec ".toList.head? = some 'w' := by simp
  have front : '\n' ∉ "warning: invalid logging spec ".toList := by simp
  have behind : '\n' ∉ complaint.toList ++ ", ignoring it".toList := by simp [free]
  refine quiet_of_front ?_ begins (by decide) front (fields_eq_singleton behind)
    (List.forall_mem_nil _)
  unfold Log.Filter.warning
  simp

theorem quiet_of_quotes {spec message : String} (quotes : Log.Filter.Quotes spec message)
    (free : '\n' ∉ spec.toList) : Quiet message := by
  obtain ⟨text, remark, rfl, inside, plain⟩ := quotes
  have textFree : '\n' ∉ text.toList := fun mem => free (inside mem)
  apply quiet_warning
  simp [Log.Filter.quoted, textFree, plain]

/-! ## Log records -/

/-- Further lines of a text, indented. -/
theorem fields_indented (text : List Char) :
    ∃ first more, fields '\n' (text.flatMap fun c =>
        if c = '\n' then ['\n', ' ', ' ', ' ', ' '] else [c]) = first :: more ∧
      ∀ line ∈ more, Unlike line := by
  induction text with
  | nil => exact ⟨[], [], rfl, List.forall_mem_nil _⟩
  | cons c text ih =>
    obtain ⟨first, more, cut, indented⟩ := ih
    rw [List.flatMap_cons]
    by_cases newline : c = '\n'
    · have spaces := @fields_append_of_free '\n' [' ', ' ', ' ', ' '] _ (by decide) _ _ cut
      rw [if_pos newline, List.cons_append, fields_newline_cons, spaces]
      have next : Unlike ([' ', ' ', ' ', ' '] ++ first) := ⟨' ', rfl, by decide⟩
      exact ⟨[], _, rfl, List.forall_mem_cons.mpr ⟨next, indented⟩⟩
    · have free : '\n' ∉ [c] := by simpa using Ne.symm newline
      have joined := fields_append_of_free free cut
      rw [if_neg newline]
      exact ⟨_, more, joined, indented⟩

theorem quiet_line {entry : Log.Record} (known : entry.target ∈ Log.targets) :
    Quiet entry.line := by
  obtain ⟨first, more, cut, indented⟩ := fields_indented entry.message.toList
  have target : '\n' ∉ entry.target.toList := by
    have free : ∀ target ∈ Log.targets, '\n' ∉ target.toList := by decide +kernel
    exact free _ known
  have level : '\n' ∉ entry.level.name.toList := by
    cases entry.level <;> decide +kernel
  have front : '\n' ∉ ("[" ++ entry.level.name ++
      String.ofList (List.replicate (5 - entry.level.name.length) ' ') ++ " " ++ entry.target ++
      "] ").toList := by
    simp [level, target]
  refine quiet_of_front (c := '[') ?_ ?_ (by decide) front cut indented
  · rw [Log.Record.line, String.toList_append, String.toList_append, String.toList_ofList]
    rfl
  · simp only [String.toList_append, List.head?_append]
    rfl

/-! ## Who logs -/

/-- Only parts of the program log. -/
def LogsAsKnown (actions : List Action) : Prop :=
  ∀ entry, .log entry ∈ actions → entry.target ∈ Log.targets

theorem Plain.logsAsKnown {actions : List Action} (plain : Plain actions) :
    LogsAsKnown actions := fun _ member => Action.plain_log.mp (plain _ member)

theorem logsAsKnown_tokenize (form : ReportForm) (sql : String) :
    LogsAsKnown (tokenize form sql).actions := by
  cases form with
  | table => exact (plain_tokenize_table sql).logsAsKnown
  | structured =>
    intro entry member
    rw [actions_tokenize_structured] at member
    rcases List.mem_append.mp member with recorded | behind
    · exact (plain_records _).logsAsKnown entry recorded
    · simp at behind

namespace Program

theorem logsAsKnown_reportFile (form : ReportForm) (path : String) (w : World) :
    LogsAsKnown (reportFile form path w).actions := by
  intro entry member
  rcases List.mem_cons.mp member with reading | reported
  · cases reading
    exact Log.programTarget_mem
  · split at reported
    · cases reported
    · split at reported
      · cases reported
      · exact logsAsKnown_tokenize form _ entry reported

theorem logsAsKnown_runTask (settings : Settings) (task : Option Task) (w : World) :
    LogsAsKnown (runTask settings task w).actions := by
  match task with
  | none | some .shell => exact (Shell.plain_run settings.shell w.input).logsAsKnown
  | some (.tokenize sql form) => exact logsAsKnown_tokenize form sql
  | some (.file path form) => exact logsAsKnown_reportFile form path w
  | some .info =>
    have plain : Plain (info w).actions := by simp [info]
    exact plain.logsAsKnown

/-! ## Messages but the last -/

/-- The log specifications that are given from outside. -/
def givenSpecs (invocation : Invocation) (w : World) : List String :=
  (w.environment "RUST_LOG").toList ++ invocation.logLevel.toList

/-- No message reports a fatal error. Nor does a line look as if one did, unless a specification
with a newline is given. -/
structure Calm (given : List String) (messages : List Message) : Prop where
  noFatal : ∀ chain, .fatal chain ∉ messages
  unlike : (∀ spec ∈ given, '\n' ∉ spec.toList) →
    ¬ LineBegins Message.alarm (String.join (messages.map Message.text))

theorem newline_notMem_level {settings : Settings} (valid : settings.validate = .ok ()) :
    '\n' ∉ settings.level.toList := by
  intro member
  have letter := Log.isLetter_of_mem (level_of_validate valid) member
  cases letter

theorem calm_logged {settings : Settings} (valid : settings.validate = .ok ())
    (invocation : Invocation) (w : World) :
    Calm (givenSpecs invocation w)
      (logged settings invocation.logLevel (runTask settings invocation.task w) w) where
  noFatal := by simp [logged]
  unlike free := by
    apply not_lineBegins_join
    rw [logged, List.map_append, List.map_map, List.map_map]
    refine List.forall_mem_append.mpr ⟨?_, ?_⟩
    · refine List.forall_mem_map.mpr fun message warned => ?_
      obtain ⟨spec, member, quotes⟩ := Log.Filter.quotes_of_mem_addAll warned
      refine quiet_of_quotes quotes ?_
      rcases List.mem_cons.mp member with rfl | given
      · exact newline_notMem_level valid
      · exact free spec given
    · refine List.forall_mem_map.mpr fun entry shown => ?_
      obtain ⟨action, done, isLog⟩ := List.mem_filterMap.mp (List.mem_filter.mp shown).1
      cases action <;> cases isLog
      exact quiet_line (logsAsKnown_runTask settings invocation.task w entry done)

end Program

end SqlConsole
