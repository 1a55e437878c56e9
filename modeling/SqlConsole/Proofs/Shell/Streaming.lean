import SqlConsole.Proofs.Shell.Transcript

/-! A session over an input that goes on. The session that meets more input repeats what it has
shown and goes on from the buffer it has reached; where it has stopped, nothing behind that place
changes it. With nothing pending the rest of the input is answered as in a session of its own. -/
namespace SqlConsole

theorem Run.after_after (run : Run) (first second : List Action) :
    (run.after second).after first = run.after (first ++ second) := by
  simp [after]

namespace Shell

variable {settings : ShellSettings} {buffer next last : Buffer} {raw : Bytes}
  {raws : List Bytes} {lines : List String} {actions : List Action}

/-! ## What does not depend on the rest -/

/-- Over `raws` the session goes from `buffer` to `next` by `actions`, whatever follows. -/
def Reaches (settings : ShellSettings) (buffer : Buffer) (raws : List Bytes)
    (actions : List Action) (next : Buffer) : Prop :=
  ∀ rest, session settings buffer (raws ++ rest) = (session settings next rest).after actions

/-- The session comes to its end within `raws`, whatever follows. -/
def Stops (settings : ShellSettings) (buffer : Buffer) (raws : List Bytes) : Prop :=
  ∀ rest, session settings buffer (raws ++ rest) = session settings buffer raws

namespace Reaches

theorem refl (settings : ShellSettings) (buffer : Buffer) :
    Reaches settings buffer [] [] buffer := by
  intro rest
  rfl

theorem step (goesOn : replyRaw settings buffer raw = .goOn actions next) :
    Reaches settings buffer [raw] (ask settings buffer ++ actions) next := by
  intro rest
  exact session_goOn rest goesOn

theorem trans {first second : List Bytes} {before behind : List Action}
    (start : Reaches settings buffer first before next)
    (finish : Reaches settings next second behind last) :
    Reaches settings buffer (first ++ second) (before ++ behind) last := by
  intro rest
  rw [List.append_assoc, start, finish, Run.after_after]

theorem stops {rest : List Bytes} (start : Reaches settings buffer raws actions next)
    (finish : Stops settings next rest) : Stops settings buffer (raws ++ rest) := by
  intro more
  rw [List.append_assoc, start, finish, start]

end Reaches

theorem stops_of_reply {final : Run} (stop : replyRaw settings buffer raw = .stop final)
    (rest : List Bytes) : Stops settings buffer (raw :: rest) := by
  intro more
  rw [List.cons_append, session_stop (rest ++ more) stop, session_stop rest stop]

/-! ## Items -/

theorem Unfinished.begun (held : Unfinished raws lines) : Begun lines := by
  intro first found
  refine ⟨(held.opens first found).1, ?_⟩
  have member : some first ∈ raws.map lineOf? := by
    rw [held.read]
    exact List.mem_map_of_mem (List.mem_of_head? found)
  obtain ⟨raw, -, read⟩ := List.mem_map.mp member
  obtain ⟨text, -, rfl⟩ := Option.map_eq_some_iff.mp read
  exact trimmed_trim text

/-- The lines that complete no statement are in the buffer behind them. -/
theorem Unfinished.reaches (settings : ShellSettings) (held : Unfinished raws lines) :
    ∃ actions, Reaches settings .empty raws actions ⟨lines⟩ := by
  -- the buffer grows at its end, by the line read last
  induction lines using List.reverseRecOn generalizing raws with
  | nil =>
    obtain rfl := List.map_eq_nil_iff.mp held.read
    exact ⟨[], .refl settings .empty⟩
  | append_singleton lines line ih =>
    have begun := held.begun
    obtain ⟨ahead, raw, rfl, heldAhead, read, opens, unended⟩ := held.concat_inv
    obtain ⟨actions, reached⟩ := ih heldAhead
    have replied := (replyRaw_eq settings ⟨lines⟩ read).trans (reply_line settings opens begun)
    rw [unended] at replied
    exact ⟨_, reached.trans (.step replied)⟩

/-- The line that ends a statement leaves nothing pending. -/
theorem Unfinished.reaches_ended {line : String} (settings : ShellSettings)
    (held : Unfinished raws lines) (read : lineOf? raw = some line)
    (opens : lines = [] → Opens line) (ended : Buffer.endsStatement line = true) :
    ∃ actions, Reaches settings .empty (raws ++ [raw]) actions .empty := by
  obtain ⟨actions, reached⟩ := held.reaches settings
  have begun := held.begun.concat read opens
  have replied := (replyRaw_eq settings ⟨lines⟩ read).trans (reply_line settings opens begun)
  rw [if_pos ended] at replied
  exact ⟨_, reached.trans (.step replied)⟩

/-- The lines of the statement that the items leave open. -/
def openLines (items : List Item) : List String :=
  match items.getLast? with
  | some (.pending lines) => lines
  | _ => []

theorem openLines_of_complete {items : List Item} (complete : ∀ lines, .pending lines ∉ items) :
    openLines items = [] := by
  unfold openLines
  split
  next lines last => exact absurd (List.mem_of_getLast? last) (complete lines)
  next => rfl

theorem openLines_cons (item : Item) (complete : ∀ lines, item ≠ .pending lines)
    (items : List Item) : openLines (item :: items) = openLines items := by
  cases items with
  | nil =>
    cases item
    case pending lines => exact absurd rfl (complete lines)
    all_goals rfl
  | cons next items => simp [openLines]

/-- A session whose input is exhausted goes on with the lines left open. -/
theorem Batch.reaches (settings : ShellSettings) {items : List Item}
    (batch : Batch raws items .exhausted) :
    ∃ actions, Reaches settings .empty raws actions ⟨openLines items⟩ := by
  generalize closed : Close.exhausted = close at batch
  induction batch with
  | exhausted => exact ⟨[], .refl settings .empty⟩
  | unreadable | leave | broken => cases closed
  | blank read batch ih =>
    obtain ⟨actions, reached⟩ := ih closed
    have replied : replyRaw settings .empty _ = .goOn [] .empty := replyRaw_eq settings .empty read
    rw [openLines_cons .blank nofun]
    exact ⟨_, Reaches.trans (.step replied) reached⟩
  | command read dot stays batch ih =>
    obtain ⟨actions, reached⟩ := ih closed
    have replied := (replyRaw_eq settings .empty read).trans (reply_command settings dot)
    rw [if_neg stays] at replied
    rw [openLines_cons (.command _) nofun]
    exact ⟨_, Reaches.trans (.step replied) reached⟩
  | @statement raws lines raw last rest items close held read opens ended batch ih =>
    obtain ⟨actions, reached⟩ := ih closed
    obtain ⟨before, complete⟩ := held.reaches_ended settings read opens ended
    rw [openLines_cons (.statement _) nofun, List.append_cons]
    exact ⟨_, complete.trans reached⟩
  | pending held nonempty => exact held.reaches settings

/-- A session that is left, or meets a line that is not text, ends there. -/
theorem Batch.stops (settings : ShellSettings) {items : List Item} {close : Close}
    (batch : Batch raws items close) (more : close ≠ .exhausted) :
    Stops settings .empty raws := by
  induction batch with
  | exhausted | pending => exact absurd rfl more
  | unreadable unreadable => exact stops_of_reply (replyRaw_unreadable .empty unreadable) _
  | blank read batch ih =>
    have replied : replyRaw settings .empty _ = .goOn [] .empty := replyRaw_eq settings .empty read
    exact Reaches.stops (.step replied) (ih more)
  | command read dot stays batch ih =>
    have replied := (replyRaw_eq settings .empty read).trans (reply_command settings dot)
    rw [if_neg stays] at replied
    exact Reaches.stops (.step replied) (ih more)
  | leave read dot leaves =>
    have replied := (replyRaw_eq settings .empty read).trans (reply_command settings dot)
    rw [if_pos leaves] at replied
    exact stops_of_reply replied _
  | @statement raws lines raw last rest items close held read opens ended batch ih =>
    obtain ⟨before, complete⟩ := held.reaches_ended settings read opens ended
    rw [List.append_cons]
    exact complete.stops (ih more)
  | @broken raws lines raw rest held nonempty unreadable =>
    obtain ⟨before, reached⟩ := held.reaches settings
    exact reached.stops (stops_of_reply (replyRaw_unreadable ⟨lines⟩ unreadable) rest)

/-! ## Outputs -/

/-- Whatever comes, the session asks for it first. -/
theorem session_asks (settings : ShellSettings) (buffer : Buffer) (raws : List Bytes) :
    ∃ rest : Run, session settings buffer raws = rest.after (ask settings buffer) := by
  cases raws with
  | nil => exact ⟨ending, rfl⟩
  | cons raw rest =>
    cases replied : replyRaw settings buffer raw with
    | stop final => exact ⟨final, session_stop rest replied⟩
    | goOn actions next =>
      refine ⟨(session settings next rest).after actions, ?_⟩
      rw [session_goOn rest replied, Run.after_after]

/-- The banner has no part in what follows it. -/
theorem session_showBanner (settings : ShellSettings) (shown : Bool) (buffer : Buffer)
    (raws : List Bytes) :
    session { settings with showBanner := shown } buffer raws = session settings buffer raws := by
  induction raws generalizing buffer with
  | nil => rfl
  | cons raw rest ih =>
    have same : replyRaw { settings with showBanner := shown } buffer raw =
        replyRaw settings buffer raw := by
      simp only [replyRaw, reply, answer]
    simp only [session, same, ih]
    rfl

theorem run_quiet (settings : ShellSettings) (input : Bytes) :
    run { settings with showBanner := false } input = session settings .empty input.lines :=
  session_showBanner settings false .empty input.lines

theorem run_append {ahead : Bytes} (whole : EndsLine ahead) (behind : Bytes) :
    run settings (ahead ++ behind) =
      (session settings .empty (ahead.lines ++ behind.lines)).after (opening settings) := by
  rw [run, Bytes.lines_append whole]

theorem run_append_of_reaches {ahead : Bytes} (whole : EndsLine ahead)
    (reached : Reaches settings .empty ahead.lines actions next) (behind : Bytes) :
    run settings (ahead ++ behind) =
      (session settings next behind.lines).after (opening settings ++ actions) := by
  rw [run_append whole, reached, Run.after_after]

theorem Batch.run_stopped (settings : ShellSettings) {ahead : Bytes} (whole : EndsLine ahead)
    {items : List Item} {close : Close} (batch : Batch ahead.lines items close)
    (more : close ≠ .exhausted) (behind : Bytes) :
    run settings (ahead ++ behind) = run settings ahead := by
  rw [run_append whole, batch.stops settings more, run]

theorem Batch.run_goesOn (settings : ShellSettings) {ahead : Bytes} (whole : EndsLine ahead)
    {items : List Item} (batch : Batch ahead.lines items .exhausted) (behind : Bytes) :
    ∃ shown,
      (run settings ahead).output = shown ++ Bytes.ofText "\n" ∧
      shown <+: (run settings (ahead ++ behind)).output ∧
      ((∀ lines, .pending lines ∉ items) → ∃ answered,
        shown = answered ++ Bytes.ofText settings.prompt ∧
        (run settings (ahead ++ behind)).output =
          answered ++ (run { settings with showBanner := false } behind).output ∧
        (run settings (ahead ++ behind)).result =
          (run { settings with showBanner := false } behind).result) := by
  obtain ⟨actions, reached⟩ := batch.reaches settings
  have alone := run_append_of_reaches whole reached []
  have further := run_append_of_reaches whole reached behind
  rw [List.append_nil] at alone
  refine ⟨bytesOf (opening settings ++ actions) ++ bytesOf (ask settings ⟨openLines items⟩),
    ?_, ?_, ?_⟩
  · rw [alone, Bytes.lines, session, Run.output_after, Run.output_after, List.append_assoc]
    rfl
  · obtain ⟨rest, asked⟩ := session_asks settings ⟨openLines items⟩ behind.lines
    rw [further, asked, Run.output_after, Run.output_after, ← List.append_assoc]
    exact List.prefix_append _ _
  · intro complete
    have nothingOpen := openLines_of_complete complete
    have rest := run_quiet settings behind
    refine ⟨bytesOf (opening settings ++ actions), ?_, ?_, ?_⟩
    · rw [nothingOpen]
      simp [bytesOf, ask, Action.bytes, Buffer.isEmpty]
    · rw [further, nothingOpen, Run.output_after, rest]
      rfl
    · rw [further, nothingOpen, rest]
      rfl

/-- An input of whole lines falls into items in one way, and its items tell how the session over
it ends. Where it has stopped, more input changes nothing. If not, it has ended with a prompt and a
newline, and all but the newline stays; and where no statement is pending, the rest is answered as
in a session of its own without a banner. -/
theorem run_streams (settings : ShellSettings) {ahead : Bytes} (whole : EndsLine ahead)
    (behind : Bytes) :
    ∃ lines items close, LinesOf ahead lines ∧ Batch lines items close ∧
      (∀ lines' items' close', LinesOf ahead lines' → Batch lines' items' close' →
        lines' = lines ∧ items' = items ∧ close' = close) ∧
      (run settings ahead).result = close.result ∧
      (close = .left ∨ close = .unreadable →
        run settings (ahead ++ behind) = run settings ahead) ∧
      (close = .exhausted → ∃ shown,
        (run settings ahead).output = shown ++ Bytes.ofText "\n" ∧
        shown <+: (run settings (ahead ++ behind)).output ∧
        ((∀ lines, .pending lines ∉ items) → ∃ answered,
          shown = answered ++ Bytes.ofText settings.prompt ∧
          (run settings (ahead ++ behind)).output =
            answered ++ (run { settings with showBanner := false } behind).output ∧
          (run settings (ahead ++ behind)).result =
            (run { settings with showBanner := false } behind).result)) := by
  obtain ⟨-, result⟩ := @agrees [] settings ahead.lines nofun
  generalize read : itemize [] ahead.lines = parts at result
  obtain ⟨items, close⟩ := parts
  have batch : Batch ahead.lines items close := batch_iff.mpr read
  refine ⟨ahead.lines, items, close, Bytes.linesOf_lines ahead, batch, ?_, result, ?_, ?_⟩
  · intro lines' items' close' cut other
    obtain rfl := cut.eq_lines
    obtain ⟨rfl, rfl⟩ := Prod.mk.inj (read.symm.trans other.eq_itemize)
    exact ⟨rfl, rfl, rfl⟩
  · intro stopped
    have ended : close ≠ .exhausted := by
      rcases stopped with rfl | rfl <;> decide
    exact batch.run_stopped settings whole ended behind
  · rintro rfl
    exact batch.run_goesOn settings whole behind

theorem run_streams_unreadable :
    let ahead := Bytes.ofText "\nSELECT\n.quit ;\n.tables\n"
    EndsLine ahead ∧
      ∃ answered,
        (run .default ahead).output = answered ++ Bytes.ofText "miniql> " ++ Bytes.ofText "\n" ∧
        (run .default (ahead ++ [255])).output = answered ++ Bytes.ofText "miniql> " ∧
        (run .default (ahead ++ [255])).result = .error (.io .notText) := by
  intro ahead
  let items : List Item := [.blank, .statement ["SELECT", ".quit ;"], .command ".tables"]
  have whole : EndsLine ahead := by decide +kernel
  have reading : Batch ahead.lines items .exhausted := batch_iff.mpr (by decide +kernel)
  obtain ⟨lines, items', close, -, -, unique, -, -, goesOn⟩ := run_streams .default whole [255]
  obtain ⟨-, rfl, rfl⟩ := unique _ _ _ (Bytes.linesOf_lines ahead) reading
  obtain ⟨shown, alone, -, separate⟩ := goesOn rfl
  have complete : ∀ lines, Item.pending lines ∉ items := by simp [items]
  obtain ⟨answered, rfl, output, result⟩ := separate complete
  have last : replyRaw { ShellSettings.default with showBanner := false } .empty [255] =
      .stop (Run.fail (.io .notText)) := replyRaw_unreadable .empty (by decide +kernel)
  have rest : run { ShellSettings.default with showBanner := false } [255] =
      (Run.fail (.io .notText)).after (ask .default .empty) := session_stop [] last
  rw [rest] at output result
  exact ⟨whole, answered, alone, output, result⟩

end Shell

end SqlConsole
