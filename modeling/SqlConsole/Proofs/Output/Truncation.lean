import SqlConsole.Output.Sink
import SqlConsole.Proofs.Output.Plain

/-! Runs into a sink that may fail. What a sink takes is said in totals, bytes against its room and
flushes against their number; the run goes action by action and ends with the first one that is
too much. The sink then holds the beginning of the full output, and the result tells which kind of
action has failed. -/
namespace SqlConsole

@[simp] theorem bytesOf_nil : bytesOf [] = [] := rfl

@[simp] theorem bytesOf_cons (action : Action) (rest : List Action) :
    bytesOf (action :: rest) = action.bytes ++ bytesOf rest := rfl

namespace Sink

/-- All of `actions` succeed: their bytes fit into the room and no flush is one too many. -/
structure Takes (sink : Sink) (actions : List Action) : Prop where
  room : ∀ room ∈ sink.room, (bytesOf actions).length ≤ room
  flushes : ∀ flushes ∈ sink.flushes, actions.count .flush ≤ flushes

/-- The bytes for which there is room. -/
def cut (sink : Sink) (bytes : Bytes) : Bytes :=
  match sink.room with
  | none => bytes
  | some room => bytes.take room

end Sink

/-- How an action fails. Log records do not go into the sink. -/
inductive Action.Fails : Action → Fault → Prop where
  | write : Fails (.write text) (.io .outputFull)
  | document : Fails (.document text) (.serialization .outputFull)
  | flush : Fails .flush (.io .flushFailed)

namespace Sink

variable {sink : Sink} {action : Action} {actions before rest : List Action}

theorem takes_nil (sink : Sink) : sink.Takes [] :=
  ⟨fun room _ => Nat.zero_le room, fun flushes _ => Nat.zero_le flushes⟩

theorem Takes.of_append (all : sink.Takes (before ++ rest)) : sink.Takes before := by
  constructor
  · intro room bound
    have total := all.room room bound
    rw [bytesOf_append, List.length_append] at total
    omega
  · intro flushes bound
    have total := all.flushes flushes bound
    rw [List.count_append] at total
    omega

theorem cut_prefix (sink : Sink) (bytes : Bytes) : sink.cut bytes <+: bytes := by
  unfold cut
  split
  next => exact List.prefix_rfl
  next room _ => exact List.take_prefix room bytes

/-! ## One action -/

theorem write_fits {bytes : Bytes} (fits : ∀ room ∈ sink.room, bytes.length ≤ room) :
    sink.write bytes = (bytes, some { sink with room := sink.room.map (· - bytes.length) }) := by
  obtain ⟨room, flushes⟩ := sink
  cases room with
  | none => rfl
  | some room =>
    have bound := fits room rfl
    simp [write, bound]

theorem write_over {bytes : Bytes} (beyond : ¬ ∀ room ∈ sink.room, bytes.length ≤ room) :
    sink.write bytes = (sink.cut bytes, none) := by
  obtain ⟨room, flushes⟩ := sink
  cases room with
  | none => exact absurd nofun beyond
  | some room =>
    have bound : ¬ bytes.length ≤ room := by simpa using beyond
    simp [write, cut, bound]

theorem flush_few (few : ∀ flushes ∈ sink.flushes, 1 ≤ flushes) :
    sink.flush = some { sink with flushes := sink.flushes.map (· - 1) } := by
  obtain ⟨room, flushes⟩ := sink
  cases flushes with
  | none => rfl
  | some flushes =>
    cases flushes with
    | zero => exact absurd (few 0 rfl) (by decide)
    | succ fewer => rfl

theorem flush_over (beyond : ¬ ∀ flushes ∈ sink.flushes, 1 ≤ flushes) : sink.flush = none := by
  obtain ⟨room, flushes⟩ := sink
  cases flushes with
  | none => exact absurd nofun beyond
  | some flushes =>
    cases flushes with
    | zero => rfl
    | succ fewer => exact absurd (by simp) beyond

theorem takes_singleton : sink.Takes [action] ↔
    (∀ room ∈ sink.room, action.bytes.length ≤ room) ∧
      ∀ flushes ∈ sink.flushes, [action].count .flush ≤ flushes := by
  constructor
  · intro ⟨fits, few⟩
    exact ⟨by simpa using fits, few⟩
  · intro ⟨fits, few⟩
    exact ⟨by simpa using fits, few⟩

/-- What is left of a sink that has taken an action. -/
def behind (sink : Sink) (action : Action) : Sink where
  room := sink.room.map (· - action.bytes.length)
  flushes := sink.flushes.map (· - [action].count .flush)

theorem perform_takes (takes : sink.Takes [action]) :
    sink.perform action = (action.bytes, .ok (sink.behind action)) := by
  obtain ⟨fits, few⟩ := takes_singleton.mp takes
  cases action with
  | write text =>
    have written := @write_fits sink (Bytes.ofText text) fits
    simp [perform, written, behind, Action.bytes]
  | document text =>
    have written := @write_fits sink (Bytes.ofText text) fits
    simp [perform, written, behind, Action.bytes]
  | flush => simp [perform, flush_few few, behind, Action.bytes]
  | log record => simp [perform, behind, Action.bytes]

theorem perform_refuses (refuses : ¬ sink.Takes [action]) :
    ∃ fault, action.Fails fault ∧ sink.perform action = (sink.cut action.bytes, .error fault) := by
  rw [takes_singleton, not_and_or] at refuses
  cases action with
  | write text =>
    have written := @write_over sink (Bytes.ofText text) (refuses.resolve_right (by simp))
    refine ⟨_, .write, ?_⟩
    simp [perform, written, Action.bytes]
  | document text =>
    have written := @write_over sink (Bytes.ofText text) (refuses.resolve_right (by simp))
    refine ⟨_, .document, ?_⟩
    simp [perform, written, Action.bytes]
  | flush =>
    have beyond := refuses.resolve_left (by simp [Action.bytes])
    have nothing : sink.cut [] = [] := List.prefix_nil.mp (sink.cut_prefix [])
    refine ⟨_, .flush, ?_⟩
    simp [perform, flush_over beyond, nothing, Action.bytes]
  | log record => simp [Action.bytes] at refuses

/-- Room and flushes taken from one action are missing for the ones behind it. -/
theorem behind_takes (takes : sink.Takes [action]) :
    (sink.behind action).Takes rest ↔ sink.Takes (action :: rest) := by
  obtain ⟨room, flushes⟩ := sink
  obtain ⟨fits, few⟩ := takes
  constructor
  · intro ⟨fitsRest, fewRest⟩
    constructor
    · rintro room rfl
      have first := fits room rfl
      have later : (bytesOf rest).length ≤ room - action.bytes.length := fitsRest _ rfl
      simp only [bytesOf_cons, bytesOf_nil, List.append_nil, List.length_append] at first ⊢
      omega
    · rintro flushes rfl
      have first := few flushes rfl
      have later : rest.count .flush ≤ flushes - [action].count .flush := fewRest _ rfl
      rw [← List.singleton_append, List.count_append]
      omega
  · intro ⟨fitsAll, fewAll⟩
    constructor
    · intro left found
      obtain ⟨room, rfl, rfl⟩ := Option.map_eq_some_iff.mp found
      have all := fitsAll room rfl
      simp only [bytesOf_cons, List.length_append] at all
      omega
    · intro left found
      obtain ⟨flushes, rfl, rfl⟩ := Option.map_eq_some_iff.mp found
      have all := fewAll flushes rfl
      rw [← List.singleton_append, List.count_append] at all
      omega

theorem append_cut_behind (takes : sink.Takes [action]) (bytes : Bytes) :
    action.bytes ++ (sink.behind action).cut bytes = sink.cut (action.bytes ++ bytes) := by
  obtain ⟨room, flushes⟩ := sink
  cases room with
  | none => rfl
  | some room =>
    have fits : action.bytes.length ≤ room := by simpa using takes.room room rfl
    simp only [cut, behind, Option.map_some, List.take_append, List.take_of_length_le fits]

/-! ## A whole run -/

theorem deliver_takes (result : Except Fault Unit) (takes : sink.Takes actions) :
    deliver result sink actions = (bytesOf actions, result) := by
  induction actions generalizing sink with
  | nil => rfl
  | cons action rest ih =>
    have first : sink.Takes [action] := @Takes.of_append sink [action] rest takes
    have later := ih ((behind_takes first).mpr takes)
    simp only [deliver, perform_takes first, later, bytesOf_cons]

theorem deliver_refuses (result : Except Fault Unit) (takes : sink.Takes before)
    (refuses : ¬ sink.Takes (before ++ [action])) (rest : List Action) :
    ∃ fault, action.Fails fault ∧ deliver result sink (before ++ action :: rest) =
      (sink.cut (bytesOf (before ++ [action])), .error fault) := by
  -- every action that is taken leaves a smaller sink
  induction before generalizing sink with
  | nil =>
    obtain ⟨fault, fails, performed⟩ := perform_refuses refuses
    refine ⟨fault, fails, ?_⟩
    simp only [List.nil_append, deliver, performed, bytesOf_cons, bytesOf_nil, List.append_nil]
  | cons first before ih =>
    have taken : sink.Takes [first] := @Takes.of_append sink [first] before takes
    obtain ⟨fault, fails, delivered⟩ := ih ((behind_takes taken).mpr takes)
      (fun all => refuses ((behind_takes taken).mp all))
    refine ⟨fault, fails, ?_⟩
    simp only [List.cons_append, deliver, perform_takes taken, delivered, bytesOf_cons,
      append_cut_behind taken]

/-- Among actions that are too much one is the first. -/
theorem exists_first_refused (refuses : ¬ sink.Takes actions) :
    ∃ before action rest, actions = before ++ action :: rest ∧ sink.Takes before ∧
      ¬ sink.Takes (before ++ [action]) := by
  induction actions using List.reverseRecOn with
  | nil => exact absurd sink.takes_nil refuses
  | append_singleton actions last ih =>
    by_cases takes : sink.Takes actions
    · exact ⟨actions, last, [], rfl, takes, refuses⟩
    · obtain ⟨before, action, rest, rfl, taken, refused⟩ := ih takes
      exact ⟨before, action, rest ++ [last], by simp, taken, refused⟩

end Sink

namespace Run

/-- What a sink leaves of a run: all of it with the run's own result, or what goes in up to the
first action that is too much, with the fault of that action. -/
def BrokenOff (run : Run) (sink : Sink) : Prop :=
  (sink.Takes run.actions ∧ run.into sink = run.into .unlimited) ∨
    ∃ before action rest fault, run.actions = before ++ action :: rest ∧ sink.Takes before ∧
      ¬ sink.Takes (before ++ [action]) ∧ action.Fails fault ∧
      run.into sink = (sink.cut (bytesOf (before ++ [action])), .error fault)

variable {run : Run} {room : Nat}

theorem into_unlimited (run : Run) : run.into .unlimited = (run.output, run.result) :=
  Sink.deliver_takes run.result ⟨nofun, nofun⟩

theorem into_takes {sink : Sink} (takes : sink.Takes run.actions) :
    run.into sink = (run.output, run.result) :=
  Sink.deliver_takes run.result takes

theorem into_refuses (sink : Sink) {before rest : List Action} {action : Action}
    (split : run.actions = before ++ action :: rest) (takes : sink.Takes before)
    (refuses : ¬ sink.Takes (before ++ [action])) :
    ∃ fault, action.Fails fault ∧
      run.into sink = (sink.cut (bytesOf (before ++ [action])), .error fault) := by
  rw [into, split]
  exact Sink.deliver_refuses run.result takes refuses rest

theorem brokenOff (run : Run) (sink : Sink) : run.BrokenOff sink := by
  by_cases takes : sink.Takes run.actions
  · refine .inl ⟨takes, ?_⟩
    rw [into_takes takes, into_unlimited]
  · obtain ⟨before, action, rest, whole, taken, refused⟩ := Sink.exists_first_refused takes
    obtain ⟨fault, fails, broken⟩ := into_refuses sink whole taken refused
    exact .inr ⟨before, action, rest, fault, whole, taken, refused, fails, broken⟩

theorem output_split {before rest : List Action} {action : Action}
    (split : run.actions = before ++ action :: rest) :
    run.output = bytesOf (before ++ [action]) ++ bytesOf rest := by
  rw [output, split, List.append_cons]
  exact bytesOf_append _ _

theorem into_prefix (run : Run) (sink : Sink) :
    (run.into sink).1 <+: run.output := by
  rcases run.brokenOff sink with ⟨-, whole⟩ | ⟨before, action, rest, fault, split, -, -, -, broken⟩
  · exact ⟨[], by rw [whole, into_unlimited, List.append_nil]⟩
  · rw [broken, output_split split]
    exact (sink.cut_prefix _).trans (List.prefix_append _ _)

/-- Scan faults are no fault of a sink. -/
theorem into_eq_of_lexical {sink : Sink} {count : Nat} {first : Option ScanFault}
    (lexical : (run.into sink).2 = .error (.lexical count first)) :
    run.into sink = run.into .unlimited := by
  rcases run.brokenOff sink with ⟨-, whole⟩ | ⟨before, action, rest, fault, -, -, -, fails, broken⟩
  · exact whole
  · rw [broken] at lexical
    cases lexical
    cases fails

/-! ## Limited room -/

theorem takes_limited {actions : List Action} :
    Sink.Takes ⟨some room, none⟩ actions ↔ (bytesOf actions).length ≤ room := by
  constructor
  · intro takes
    exact takes.room room rfl
  · intro fits
    exact ⟨by simpa using fits, nofun⟩

theorem into_limited (plain : Plain run.actions) (room : Nat) :
    run.into ⟨some room, none⟩ =
      (run.output.take room,
        if room < run.output.length then .error (.io .outputFull) else run.result) := by
  rcases run.brokenOff ⟨some room, none⟩ with
    ⟨takes, whole⟩ | ⟨before, action, rest, fault, split, taken, refused, fails, broken⟩
  · have fits : run.output.length ≤ room := takes_limited.mp takes
    rw [whole, into_unlimited, List.take_of_length_le fits, if_neg (Nat.not_lt.mpr fits)]
  · rw [takes_limited] at taken refused
    have further := output_split split
    have beyond : room < run.output.length := by
      rw [further, List.length_append]
      omega
    have full : fault = .io .outputFull := by
      cases fails with
      | write => rfl
      | document => cases plain _ (split ▸ List.mem_append_cons_self)
      | flush => simp [Action.bytes] at refused; omega
    rw [broken, full, if_pos beyond, further, List.take_append_of_le_length (by omega)]
    rfl

end Run

end SqlConsole
