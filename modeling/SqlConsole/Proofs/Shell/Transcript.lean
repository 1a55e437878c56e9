import SqlConsole.Proofs.Shell.Batch
import SqlConsole.Proofs.Shell.Statements
import SqlConsole.Shell.Session

/-! What a session puts out, item by item. The session never sees a whole item: it replies to one
line at a time, with a buffer. Its output is nevertheless that of the items in order, and a
statement shows what the report on its joined lines shows. -/
namespace SqlConsole

def bytesOf (actions : List Action) : Bytes := actions.flatMap Action.bytes

@[simp] theorem bytesOf_append (first second : List Action) :
    bytesOf (first ++ second) = bytesOf first ++ bytesOf second := List.flatMap_append

@[simp] theorem Run.output_after (actions : List Action) (run : Run) :
    (run.after actions).output = bytesOf actions ++ run.output := List.flatMap_append

namespace Shell

/-! ## What is shown -/

/-- The prompts for the lines of one item. -/
def asked (settings : ShellSettings) : List String → Bytes
  | [] => []
  | _ :: more =>
    Bytes.ofText settings.prompt ++ more.flatMap fun _ => Bytes.ofText settings.continuation

def tablePart (sql : String) : Bytes := Bytes.ofText (Table.render (scan sql).tokens)

/-- The report on a statement, without its table if tokens are not to be shown. -/
def reported (settings : ShellSettings) (sql : String) : Bytes :=
  if settings.showTokens then (tokenize .table sql).output
  else (tokenize .table sql).output.rdrop (tablePart sql).length

def Item.transcript (settings : ShellSettings) : Item → Bytes
  | blank => Bytes.ofText settings.prompt
  | command line => Bytes.ofText settings.prompt ++ bytesOf ((Command.ofLine line).response line)
  | statement lines => asked settings lines ++ reported settings (Buffer.join lines)
  | pending lines => asked settings lines

/-- The prompt for a line that does not come. -/
def unanswered (settings : ShellSettings) (items : List Item) : Bytes :=
  Bytes.ofText (match items.getLast? with
    | some (.pending _) => settings.continuation
    | _ => settings.prompt)

/-- What is shown behind the last item. At the end of the input a newline follows the prompt. -/
def Close.transcript (settings : ShellSettings) (items : List Item) : Close → Bytes
  | left => []
  | exhausted => unanswered settings items ++ Bytes.ofText "\n"
  | unreadable => unanswered settings items

def Close.result : Close → Except Fault Unit
  | left | exhausted => .ok ()
  | unreadable => .error (.io .notText)

def shown (settings : ShellSettings) (read : List Item × Close) : Bytes :=
  read.1.flatMap (Item.transcript settings) ++ read.2.transcript settings read.1

variable {settings : ShellSettings} {raw : Bytes} {line : String} {lines : List String}

theorem shown_prepend (item : Item) (complete : ∀ lines, item ≠ .pending lines)
    (read : List Item × Close) :
    shown settings (prepend item read) = item.transcript settings ++ shown settings read := by
  obtain ⟨items, close⟩ := read
  -- only a pending item changes the last prompt
  have same : unanswered settings (item :: items) = unanswered settings items := by
    cases items with
    | nil =>
      cases item
      case pending lines => exact absurd rfl (complete lines)
      all_goals rfl
    | cons next items => simp [unanswered]
  rw [shown, shown, prepend, List.flatMap_cons, List.append_assoc]
  cases close <;> simp only [Close.transcript, same]

theorem asked_concat (lines : List String) (line : String) :
    asked settings (lines ++ [line]) = asked settings lines ++ bytesOf (ask settings ⟨lines⟩) := by
  cases lines with
  | nil => simp [asked, ask, bytesOf, Action.bytes, Buffer.isEmpty]
  | cons first more => simp [asked, ask, bytesOf, Action.bytes, Buffer.isEmpty]

theorem shown_heldBack (lines : List String) (close : Close) (more : close ≠ .left) :
    shown settings (heldBack lines, close) = asked settings lines ++
      (bytesOf (ask settings ⟨lines⟩) ++ if close = .exhausted then Bytes.ofText "\n" else []) := by
  cases lines <;> cases close <;>
    simp_all [shown, heldBack, Close.transcript, unanswered, Item.transcript, asked, ask, bytesOf,
      Action.bytes, Buffer.isEmpty]

/-! ## Reports -/

theorem bytesOf_records (output : ScanOutput) : bytesOf (Report.records output) = [] := by
  simp [bytesOf, Report.records, Action.bytes, List.flatMap_map]

theorem output_tokenize (form : ReportForm) (sql : String) :
    (tokenize form sql).output = bytesOf (Report.body form (scan sql)) := by
  change bytesOf (Report.records (scan sql) ++ Report.body form (scan sql) ++ [.flush]) = _
  rw [bytesOf_append, bytesOf_append, bytesOf_records]
  exact List.append_nil _

theorem output_tokenize_table (sql : String) :
    (tokenize .table sql).output = bytesOf (Report.faultLines (scan sql)) ++ tablePart sql := by
  rw [output_tokenize, Report.body, bytesOf_append]
  simp [tablePart, Report.tableLines, bytesOf, Action.bytes]

/-- The shell's answer is the report, though the shell writes it by itself. -/
theorem bytesOf_answer (sql : String) : bytesOf (answer settings sql) = reported settings sql := by
  have logged : bytesOf (answer settings sql) =
      bytesOf (Report.faultLines (scan sql)) ++
        bytesOf (if settings.showTokens then Report.tableLines (scan sql) else []) := by
    change bytesOf (Report.records (scan sql) ++ Report.faultLines (scan sql) ++ _) = _
    rw [bytesOf_append, bytesOf_append, bytesOf_records, List.nil_append]
  rw [logged, reported, output_tokenize_table]
  split
  · simp [tablePart, Report.tableLines, bytesOf, Action.bytes]
  · simp [List.rdrop, bytesOf]

/-! ## Joined lines need no trimming -/

/-- A statement does not begin with white space, since its first line does not. -/
def Begun (lines : List String) : Prop :=
  ∀ first ∈ lines.head?, first ≠ "" ∧ Trimmed first.toList

theorem Begun.concat (begun : Begun lines) (read : lineOf? raw = some line)
    (opens : lines = [] → Opens line) : Begun (lines ++ [line]) := by
  intro first found
  cases lines with
  | nil =>
    obtain rfl : line = first := by simpa using found
    obtain ⟨text, -, rfl⟩ := Option.map_eq_some_iff.mp read
    exact ⟨(opens rfl).1, trimmed_trim text⟩
  | cons head tail => exact begun first found

theorem join_cons (first : String) (more : List String) :
    ∃ behind, Buffer.join (first :: more) = first ++ behind := by
  cases more with
  | nil => exact ⟨"", by simp [Buffer.join, String.intercalate_singleton]⟩
  | cons next more =>
    refine ⟨"\n" ++ Buffer.join (next :: more), ?_⟩
    rw [Buffer.join, String.intercalate_cons_cons, Buffer.join, String.append_assoc]

theorem trim_join (begun : Begun (lines ++ [line])) (ended : Buffer.endsStatement line = true) :
    trim (Buffer.join (lines ++ [line])) = Buffer.join (lines ++ [line]) := by
  refine trim_eq_self ⟨fun c front => ?_, fun c last => ?_⟩
  · obtain ⟨first, more, whole⟩ := List.exists_cons_of_ne_nil (List.concat_ne_nil line lines)
    obtain ⟨nonempty, trimmed⟩ := begun first (by rw [whole]; rfl)
    obtain ⟨behind, joined⟩ := join_cons first more
    rw [whole, joined, String.toList_append, List.head?_append_of_ne_nil _ (by simpa)] at front
    exact trimmed.1 c front
  · obtain ⟨ahead, joined⟩ := Buffer.join_concat lines line
    have semicolon : line.toList.getLast? = some ';' := by
      simpa [Buffer.endsStatement] using ended
    rw [joined, String.toList_append, List.getLast?_append, semicolon] at last
    obtain rfl : ';' = c := by simpa using last
    decide

/-! ## Replies -/

theorem ofLine_eq_leave (line : String) : Command.ofLine line = .leave ↔ Leaves line := by
  unfold Command.ofLine Leaves
  split <;> simp_all

theorem replyRaw_unreadable (buffer : Buffer) (unreadable : lineOf? raw = none) :
    replyRaw settings buffer raw = .stop (Run.fail (.io .notText)) := by
  rw [replyRaw, Option.map_eq_none_iff.mp unreadable]

theorem replyRaw_eq (settings : ShellSettings) (buffer : Buffer) (read : lineOf? raw = some line) :
    replyRaw settings buffer raw = reply settings buffer line := by
  obtain ⟨text, isText, rfl⟩ := Option.map_eq_some_iff.mp read
  rw [replyRaw, isText]

theorem reply_command (settings : ShellSettings) (dot : line.toList.head? = some '.') :
    reply settings ⟨[]⟩ line =
      let actions := .log ⟨.debug, Log.shellTarget, "Мета-команда: " ++ line⟩ ::
        (Command.ofLine line).response line
      if Leaves line then .stop ⟨actions ++ [.flush], .ok ()⟩ else .goOn actions ⟨[]⟩ := by
  have nonempty : line ≠ "" := by
    rintro rfl
    exact nomatch dot
  simp only [reply, Buffer.isEmpty, List.isEmpty_nil, nonempty, dot,
    ofLine_eq_leave, and_false, and_self, if_true, if_false]

theorem reply_line (settings : ShellSettings) (opens : lines = [] → Opens line)
    (begun : Begun (lines ++ [line])) :
    reply settings ⟨lines⟩ line = if Buffer.endsStatement line
      then .goOn (answer settings (Buffer.join (lines ++ [line]))) .empty
      else .goOn [] ⟨lines ++ [line]⟩ := by
  have notBlank : ¬ ((Buffer.mk lines).isEmpty ∧ line = "") :=
    fun ⟨first, empty⟩ => (opens (List.isEmpty_iff.mp first)).1 empty
  have notDot : ¬ ((Buffer.mk lines).isEmpty ∧ line.toList.head? = some '.') :=
    fun ⟨first, dot⟩ => (opens (List.isEmpty_iff.mp first)).2 dot
  rw [reply, if_neg notBlank, if_neg notDot]
  cases ended : Buffer.endsStatement line
  · rw [Buffer.push_unended _ ended]
    rfl
  · rw [Buffer.push_ended _ ended, trim_join begun ended]
    rfl

/-! ## Sessions -/

/-- Every reply but the last is put out behind its prompt, and the session goes on. -/
theorem session_goOn {buffer next : Buffer} {actions : List Action} (rest : List Bytes)
    (goesOn : replyRaw settings buffer raw = .goOn actions next) :
    session settings buffer (raw :: rest) =
      (session settings next rest).after (ask settings buffer ++ actions) := by
  rw [session, goesOn]

theorem session_stop {buffer : Buffer} {final : Run} (rest : List Bytes)
    (stops : replyRaw settings buffer raw = .stop final) :
    session settings buffer (raw :: rest) = final.after (ask settings buffer) := by
  rw [session, stops]

/-- The session shows the items that the reader reads. The prompts for the lines held back, which
the buffer holds, are shown already. -/
def Agrees (settings : ShellSettings) (lines : List String) (raws : List Bytes) : Prop :=
  asked settings lines ++ (session settings ⟨lines⟩ raws).output =
      shown settings (itemize lines raws) ∧
    (session settings ⟨lines⟩ raws).result = (itemize lines raws).2.result

section Steps

variable {rest : List Bytes}

theorem agrees_nil (lines : List String) : Agrees settings lines [] := by
  refine ⟨?_, rfl⟩
  rw [session, Run.output_after, itemize, shown_heldBack lines .exhausted (by decide)]
  rfl

theorem agrees_unreadable (unreadable : lineOf? raw = none) (lines : List String) :
    Agrees settings lines (raw :: rest) := by
  rw [Agrees, session_stop rest (replyRaw_unreadable ⟨lines⟩ unreadable),
    itemize_unreadable unreadable]
  refine ⟨?_, rfl⟩
  rw [Run.output_after, shown_heldBack lines .unreadable (by decide)]
  rfl

theorem agrees_blank (read : lineOf? raw = some "") (later : Agrees settings [] rest) :
    Agrees settings [] (raw :: rest) := by
  obtain ⟨output, result⟩ := later
  have replied : replyRaw settings ⟨[]⟩ raw = .goOn [] ⟨[]⟩ := replyRaw_eq settings ⟨[]⟩ read
  rw [Agrees, session_goOn rest replied, itemize_blank read]
  refine ⟨?_, result⟩
  rw [shown_prepend .blank nofun, ← output]
  simp [asked, ask, bytesOf, Action.bytes, Item.transcript, Buffer.isEmpty]

theorem agrees_command (read : lineOf? raw = some line) (dot : line.toList.head? = some '.')
    (later : Agrees settings [] rest) : Agrees settings [] (raw :: rest) := by
  obtain ⟨output, result⟩ := later
  have replied := (replyRaw_eq settings ⟨[]⟩ read).trans (reply_command settings dot)
  rw [Agrees, itemize_command read dot]
  by_cases leaves : Leaves line
  · rw [if_pos leaves] at replied ⊢
    rw [session_stop rest replied]
    refine ⟨?_, rfl⟩
    simp [asked, ask, bytesOf, Action.bytes, shown, Item.transcript, Close.transcript, Run.output,
      Run.after, Buffer.isEmpty]
  · rw [if_neg leaves] at replied ⊢
    rw [session_goOn rest replied]
    refine ⟨?_, result⟩
    rw [shown_prepend (.command line) (by simp), ← output]
    simp [asked, ask, bytesOf, Action.bytes, Item.transcript, Buffer.isEmpty]

theorem agrees_ended (begun : Begun (lines ++ [line])) (read : lineOf? raw = some line)
    (opens : lines = [] → Opens line) (ended : Buffer.endsStatement line = true)
    (later : Agrees settings [] rest) : Agrees settings lines (raw :: rest) := by
  obtain ⟨output, result⟩ := later
  have replied := (replyRaw_eq settings ⟨lines⟩ read).trans (reply_line settings opens begun)
  rw [if_pos ended] at replied
  rw [Agrees, session_goOn rest replied, itemize_line read opens, if_pos ended]
  refine ⟨?_, result⟩
  rw [shown_prepend (.statement _) nofun, ← output, Item.transcript, asked_concat,
    ← bytesOf_answer]
  simp [asked, Buffer.empty]

theorem agrees_unended (begun : Begun (lines ++ [line])) (read : lineOf? raw = some line)
    (opens : lines = [] → Opens line) (unended : Buffer.endsStatement line = false)
    (later : Agrees settings (lines ++ [line]) rest) : Agrees settings lines (raw :: rest) := by
  obtain ⟨output, result⟩ := later
  have replied := (replyRaw_eq settings ⟨lines⟩ read).trans (reply_line settings opens begun)
  rw [unended] at replied
  rw [Agrees, session_goOn rest replied, itemize_line read opens, unended]
  refine ⟨?_, result⟩
  rw [asked_concat, List.append_assoc] at output
  simpa [bytesOf] using output

end Steps

theorem agrees (settings : ShellSettings) (raws : List Bytes) (begun : Begun lines) :
    Agrees settings lines raws := by
  induction raws generalizing lines with
  | nil => exact agrees_nil lines
  | cons raw rest ih =>
    cases read : lineOf? raw with
    | none => exact agrees_unreadable read lines
    | some line =>
      by_cases opens : lines = [] → Opens line
      · have more := begun.concat read opens
        cases ended : Buffer.endsStatement line
        · exact agrees_unended more read opens ended (ih more)
        · exact agrees_ended more read opens ended (ih nofun)
      · obtain ⟨rfl, alone⟩ := Classical.not_imp.mp opens
        rw [Opens, not_and_or, not_not, not_not] at alone
        rcases alone with rfl | dot
        · exact agrees_blank read (ih nofun)
        · exact agrees_command read dot (ih nofun)

theorem output_opening (settings : ShellSettings) :
    bytesOf (opening settings) = if settings.showBanner then bytesOf banner else [] := by
  rw [opening]
  split <;> rfl

/-- An input falls into lines and these into items in exactly one way, and the session shows the
banner, each item and how it ended, and nothing else. The table that is left out is the end of the
report. -/
theorem run_transcript (settings : ShellSettings) (input : Bytes) :
    ∃ lines items close, LinesOf input lines ∧ Batch lines items close ∧
      (∀ lines' items' close', LinesOf input lines' → Batch lines' items' close' →
        lines' = lines ∧ items' = items ∧ close' = close) ∧
      (run settings input).output = (if settings.showBanner then bytesOf banner else []) ++
        (items.flatMap (Item.transcript settings) ++ close.transcript settings items) ∧
      (run settings input).result = close.result ∧
      ∀ sql, tablePart sql <:+ (tokenize .table sql).output := by
  obtain ⟨output, result⟩ := @agrees [] settings input.lines nofun
  refine ⟨input.lines, _, _, Bytes.linesOf_lines input, batch_iff.mpr rfl, ?_, ?_, result, ?_⟩
  · intro lines items close cut batch
    obtain rfl := cut.eq_lines
    have read := batch.eq_itemize
    exact ⟨rfl, by rw [read], by rw [read]⟩
  · rw [run, Run.output_after, output_opening]
    exact congrArg _ output
  · intro sql
    rw [output_tokenize_table]
    exact List.suffix_append _ _

end Shell

end SqlConsole
