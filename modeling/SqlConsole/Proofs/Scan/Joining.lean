import Mathlib.Algebra.GroupWithZero.Nat
import SqlConsole.Proofs.Lexeme.Stopping
import SqlConsole.Shell.Buffer

/-! Scanning texts that are joined by newlines. A text whose strings and comments are all closed
does not look through the newline behind it, so the scan of the whole is that of the parts,
moved to where each part begins. -/
namespace SqlConsole

/-- The place moved on by so many lines and characters. The column stays: what lies ahead ends
with a newline. -/
def Position.shift (lines chars : Nat) (p : Position) : Position :=
  ⟨p.line + lines, p.column, p.offset + chars⟩

def Token.shift (lines chars : Nat) (t : Token) : Token :=
  { t with position := t.position.shift lines chars }

def ScanFault.shift (lines chars : Nat) (f : ScanFault) : ScanFault :=
  { f with position := f.position.shift lines chars }

/-- How many lines lie ahead of the text at place `i` of those that are joined. -/
def linesAhead (texts : List String) (i : Nat) : Nat :=
  i + ((texts.take i).map fun s => s.toList.count '\n').sum

def charsAhead (texts : List String) (i : Nat) : Nat :=
  i + ((texts.take i).map String.length).sum

/-- The scan has met no string and no comment that is never closed. -/
def ScanOutput.Closed (output : ScanOutput) : Prop :=
  ∀ f ∈ output.faults, f.cause ≠ .unterminatedString ∧ f.cause ≠ .unterminatedComment

instance (output : ScanOutput) : Decidable output.Closed :=
  inferInstanceAs (Decidable (∀ f ∈ output.faults, _))

/-- The tokens in front of the end token. -/
def ScanOutput.inner (output : ScanOutput) : List Token :=
  output.tokens.filter fun t => !t.isEnd

def ScanOutput.ends (output : ScanOutput) : List Token := output.tokens.filter Token.isEnd

namespace Position

theorem shift_shift (p : Position) (l c l' c' : Nat) :
    (p.shift l c).shift l' c' = p.shift (l + l') (c + c') := by
  simp [shift, Nat.add_assoc]

theorem shift_advance (p : Position) (l c : Nat) (d : Char) :
    (p.shift l c).advance d = (p.advance d).shift l c := by
  by_cases newline : d = '\n' <;> simp [shift, advance, newline] <;> omega

theorem shift_after (p : Position) (l c : Nat) (text : List Char) :
    (p.shift l c).after text = (p.after text).shift l c := by
  induction text generalizing p with
  | nil => rfl
  | cons d text ih => rw [after_cons, shift_advance, ih, after_cons]

/-- Behind a newline a text begins in the first column again. -/
theorem start_after_newline (text : List Char) :
    (start.after text).advance '\n' = start.shift (text.count '\n' + 1) (text.length + 1) := by
  rw [start_after]
  simp [behind, advance, shift, start]
  omega

end Position

def Placed.shift (lines chars : Nat) (x : Placed) : Placed :=
  { x with position := x.position.shift lines chars }

theorem place_shift (p : Position) (l c : Nat) (ls : List Lexeme) :
    place (p.shift l c) ls = (place p ls).map (Placed.shift l c) := by
  induction ls generalizing p with
  | nil => rfl
  | cons x ls ih =>
    rw [place, Position.shift_after, ih]
    rfl

theorem place_append (p : Position) (ls ms : List Lexeme) :
    place p (ls ++ ms) = place p ls ++ place (p.after (ls.flatMap Lexeme.text)) ms := by
  induction ls generalizing p with
  | nil => rfl
  | cons x ls ih => simp [place, ih]

/-- What is found in a row in which others stand for each lexeme and lead to the same place. -/
theorem filterMap_place_flatMap {α : Type} {image : Lexeme → List Lexeme}
    {found found' : Placed → Option α} {ls : List Lexeme}
    (lines : ∀ l ∈ ls, ∀ p : Position, p.after ((image l).flatMap Lexeme.text) = p.after l.text)
    (here : ∀ l ∈ ls, ∀ p, (place p (image l)).filterMap found = (found' ⟨p, l⟩).toList)
    (p : Position) :
    (place p (ls.flatMap image)).filterMap found = (place p ls).filterMap found' := by
  induction ls generalizing p with
  | nil => rfl
  | cons l ls ih =>
    obtain ⟨linesHere, linesLater⟩ := List.forall_mem_cons.mp lines
    obtain ⟨hereFirst, hereLater⟩ := List.forall_mem_cons.mp here
    rw [List.flatMap_cons, place_append, List.filterMap_append, linesHere, hereFirst,
      ih linesLater hereLater, place, List.filterMap_cons]
    cases found' ⟨p, l⟩ <;> rfl

theorem Placed.token?_shift (x : Placed) (l c : Nat) :
    (x.shift l c).token? = x.token?.map (Token.shift l c) := by
  rcases x with ⟨p, lexeme⟩
  cases lexeme <;> rfl

theorem Placed.fault?_shift (x : Placed) (l c : Nat) :
    (x.shift l c).fault? = x.fault?.map (ScanFault.shift l c) := by
  rcases x with ⟨p, lexeme⟩
  cases lexeme <;> rfl

theorem Placed.isEnd_token? {x : Placed} {t : Token} (found : x.token? = some t) :
    t.isEnd = false := by
  rcases x with ⟨p, lexeme⟩
  cases lexeme with
  | quoted | whole | decimal => cases found; rfl
  | word letters =>
    cases found
    rcases wordKind_cases (String.ofList letters) with ⟨k, _, kind⟩ | ⟨_, kind⟩ <;>
      simp [Token.isEnd, kind]
  | mark m => cases found; rcases m with _ | _ | _ <;> rfl
  | _ => cases found

theorem scan_inner (source : String) :
    (scan source).inner = (placedLexemes source.toList).filterMap Placed.token? := by
  have inner : ∀ t ∈ (placedLexemes source.toList).filterMap Placed.token?,
      (!t.isEnd) = true := by
    intro t member
    obtain ⟨x, _, found⟩ := List.mem_filterMap.mp member
    rw [Placed.isEnd_token? found]
    rfl
  rw [ScanOutput.inner, scan, List.filter_append, List.filter_eq_self.mpr inner]
  exact List.append_nil _

theorem scan_ends (source : String) :
    (scan source).ends = [endToken (Position.start.after source.toList)] := by
  have inner : ∀ t ∈ (placedLexemes source.toList).filterMap Placed.token?,
      ¬ t.isEnd = true := by
    intro t member
    obtain ⟨x, _, found⟩ := List.mem_filterMap.mp member
    rw [Placed.isEnd_token? found]
    exact Bool.false_ne_true
  rw [ScanOutput.ends, scan, List.filter_append, List.filter_eq_nil_iff.mpr inner]
  rfl

theorem scan_inner_append_ends (source : String) :
    (scan source).tokens = (scan source).inner ++ (scan source).ends := by
  rw [scan_inner, scan_ends]
  rfl

theorem endsBefore_of_closed {source : String} (closed : (scan source).Closed) :
    ∀ l ∈ lexemes source.toList, l.EndsBefore '\n' := by
  intro l member
  rw [← map_lexeme_place .start (lexemes source.toList)] at member
  obtain ⟨x, placed, rfl⟩ := List.mem_map.mp member
  have none : ∀ f, x.fault? = some f →
      f.cause ≠ .unterminatedString ∧ f.cause ≠ .unterminatedComment := fun f found =>
    closed f (List.mem_filterMap.mpr ⟨x, placed, found⟩)
  rcases x with ⟨p, lexeme⟩
  cases lexeme with
  | openComment => exact absurd rfl (none _ rfl).2
  | openQuote => exact absurd rfl (none _ rfl).1
  | lineComment => exact rfl
  | _ => trivial

theorem placedLexemes_append_newline {source : String} (closed : (scan source).Closed)
    (after : List Char) :
    placedLexemes (source.toList ++ '\n' :: after) = placedLexemes source.toList ++
      ⟨Position.start.after source.toList, .blank '\n'⟩ ::
        (placedLexemes after).map
          (Placed.shift (source.toList.count '\n' + 1) (source.length + 1)) := by
  rw [placedLexemes, lexemes_append_blank rfl (endsBefore_of_closed closed), place_append,
    flatMap_text_lexemes, place]
  change _ ++ _ :: place ((Position.start.after source.toList).advance '\n') _ = _
  rw [Position.start_after_newline, place_shift, String.length_toList]
  rfl

section TwoTexts

variable {s : String} (closed : (scan s).Closed) (t : String)

include closed

theorem inner_append_newline : (scan (s ++ "\n" ++ t)).inner = (scan s).inner ++
    (scan t).inner.map (Token.shift (s.toList.count '\n' + 1) (s.length + 1)) := by
  have split : (s ++ "\n" ++ t).toList = s.toList ++ '\n' :: t.toList := by simp
  rw [scan_inner, split, placedLexemes_append_newline closed, List.filterMap_append,
    List.filterMap_cons_none rfl, List.filterMap_map, scan_inner, scan_inner, List.map_filterMap]
  congr 2
  funext x
  exact x.token?_shift _ _

theorem faults_append_newline : (scan (s ++ "\n" ++ t)).faults = (scan s).faults ++
    (scan t).faults.map (ScanFault.shift (s.toList.count '\n' + 1) (s.length + 1)) := by
  have split : (s ++ "\n" ++ t).toList = s.toList ++ '\n' :: t.toList := by simp
  change (placedLexemes _).filterMap Placed.fault? = (placedLexemes _).filterMap _ ++
    ((placedLexemes _).filterMap _).map _
  rw [split, placedLexemes_append_newline closed, List.filterMap_append,
    List.filterMap_cons_none rfl, List.filterMap_map, List.map_filterMap]
  congr 2
  funext x
  exact x.fault?_shift _ _

omit closed in
theorem ends_append_newline : (scan (s ++ "\n" ++ t)).ends =
    (scan t).ends.map (Token.shift (s.toList.count '\n' + 1) (s.length + 1)) := by
  have split : (s ++ "\n" ++ t).toList = s.toList ++ '\n' :: t.toList := by simp
  rw [scan_ends, scan_ends, split, Position.after_append, Position.after_cons,
    Position.start_after_newline, Position.shift_after, String.length_toList]
  rfl

end TwoTexts

theorem linesAhead_cons (s : String) (texts : List String) (i : Nat) :
    linesAhead (s :: texts) (i + 1) = linesAhead texts i + (s.toList.count '\n' + 1) := by
  simp [linesAhead]
  omega

theorem charsAhead_cons (s : String) (texts : List String) (i : Nat) :
    charsAhead (s :: texts) (i + 1) = charsAhead texts i + (s.length + 1) := by
  simp [charsAhead]
  omega

theorem join_cons_cons (s t : String) (texts : List String) :
    Buffer.join (s :: t :: texts) = s ++ "\n" ++ Buffer.join (t :: texts) :=
  String.intercalate_cons_cons

section Parts

/-! Tokens and faults are joined alike: `parts` is what a text gives of them, and `move` moves
one of them on by lines and characters. -/

variable {α : Type} (parts : String → List α) (move : Nat → Nat → α → α)
variable (zero : ∀ x, move 0 0 x = x)
variable (twice : ∀ x l c l' c', move l' c' (move l c x) = move (l + l') (c + c') x)

include zero twice

theorem gathered_cons (s : String) (texts : List String) :
    ((s :: texts).zipIdx.flatMap fun (u, i) =>
      (parts u).map (move (linesAhead (s :: texts) i) (charsAhead (s :: texts) i))) =
    parts s ++ (texts.zipIdx.flatMap fun (u, i) =>
      (parts u).map (move (linesAhead texts i) (charsAhead texts i))).map
        (move (s.toList.count '\n' + 1) (s.length + 1)) := by
  have still : move 0 0 = id := funext zero
  rw [List.zipIdx_cons', List.flatMap_cons, List.flatMap_map, List.map_flatMap]
  congr 1
  · simp [linesAhead, charsAhead, still]
  · refine congrArg (fun f => List.flatMap f _) (funext fun (u, i) => ?_)
    change (parts u).map (move (linesAhead (s :: texts) (i + 1))
      (charsAhead (s :: texts) (i + 1))) = _
    rw [List.map_map, linesAhead_cons, charsAhead_cons]
    exact congrArg (fun f => (parts u).map f) (funext fun x => (twice x _ _ _ _).symm)

/-- If a newline parts two texts, it parts any number of them. -/
theorem parts_join (two : ∀ s, (scan s).Closed → ∀ t, parts (s ++ "\n" ++ t) = parts s ++
      (parts t).map (move (s.toList.count '\n' + 1) (s.length + 1)))
    (texts : List String) (nonempty : texts ≠ [])
    (closed : ∀ s ∈ texts.dropLast, (scan s).Closed) :
    parts (Buffer.join texts) = texts.zipIdx.flatMap fun (s, i) =>
      (parts s).map (move (linesAhead texts i) (charsAhead texts i)) := by
  induction texts with
  | nil => exact absurd rfl nonempty
  | cons s rest ih =>
    rw [gathered_cons parts move zero twice]
    cases rest with
    | nil => simp [Buffer.join]
    | cons t rest =>
      rw [List.dropLast_cons_cons] at closed
      obtain ⟨first, later⟩ := List.forall_mem_cons.mp closed
      rw [join_cons_cons, two s first, ih (List.cons_ne_nil _ _) later]

end Parts

theorem ends_join (texts : List String) (nonempty : texts ≠ []) :
    (scan (Buffer.join texts)).ends =
      (scan (texts.getLast nonempty)).ends.map (Token.shift (linesAhead texts (texts.length - 1))
        (charsAhead texts (texts.length - 1))) := by
  induction texts with
  | nil => exact absurd rfl nonempty
  | cons s rest ih =>
    cases rest with
    | nil => exact (List.map_id _).symm
    | cons t rest =>
      rw [join_cons_cons, ends_append_newline, ih (List.cons_ne_nil _ _), List.map_map]
      change _ = (scan ((t :: rest).getLast _)).ends.map
        (Token.shift (linesAhead (s :: t :: rest) (rest.length + 1))
          (charsAhead (s :: t :: rest) (rest.length + 1)))
      rw [linesAhead_cons, charsAhead_cons]
      exact congrArg (fun f => List.map f _) (funext fun x => by
        simp [Token.shift, Position.shift_shift])

/-- Texts joined by newlines, all but the last of them without a string or comment that is
never closed: the tokens are those of each text in turn and at last its end token, and the
faults are those of each text in turn. A place keeps its column; its line and its offset grow
by the newlines and the characters ahead of its text. -/
theorem scan_join (texts : List String) (nonempty : texts ≠ [])
    (closed : ∀ s ∈ texts.dropLast, (scan s).Closed) :
    (scan (Buffer.join texts)).tokens =
      (texts.zipIdx.flatMap fun (s, i) =>
        (scan s).inner.map (Token.shift (linesAhead texts i) (charsAhead texts i))) ++
      (scan (texts.getLast nonempty)).ends.map
        (Token.shift (linesAhead texts (texts.length - 1))
          (charsAhead texts (texts.length - 1))) ∧
    (scan (Buffer.join texts)).faults =
      texts.zipIdx.flatMap fun (s, i) =>
        (scan s).faults.map (ScanFault.shift (linesAhead texts i) (charsAhead texts i)) := by
  constructor
  · rw [scan_inner_append_ends, ends_join texts nonempty]
    congr 1
    refine parts_join (fun s => (scan s).inner) Token.shift (fun _ => rfl) ?_
      (fun _ first t => inner_append_newline first t) texts nonempty closed
    intro x l c l' c'
    simp [Token.shift, Position.shift_shift]
  · refine parts_join (fun s => (scan s).faults) ScanFault.shift (fun _ => rfl) ?_
      (fun _ first t => faults_append_newline first t) texts nonempty closed
    intro x l c l' c'
    simp [ScanFault.shift, Position.shift_shift]

/-- A comment with a quote mark in it ends with its line, a numeral does not go on with the
point on the next line, and the last text may leave a string open. -/
theorem scan_join_open_end :
    (∀ s ∈ (["a -- '", "1", ".5 'b"] : List String).dropLast, (scan s).Closed) ∧
    (scan (Buffer.join ["a -- '", "1", ".5 'b"])).tokens =
      [⟨.identifier, "a", ⟨1, 1, 0⟩, none⟩,
       ⟨.number, "1", ⟨2, 1, 7⟩, some (Binary64.ofNumeral ['1'] [])⟩,
       ⟨.delimiter .dot, ".", ⟨3, 1, 9⟩, none⟩,
       ⟨.number, "5", ⟨3, 2, 10⟩, some (Binary64.ofNumeral ['5'] [])⟩,
       ⟨.endOfText, "", ⟨3, 6, 14⟩, none⟩] ∧
    (scan (Buffer.join ["a -- '", "1", ".5 'b"])).faults =
      [⟨.unterminatedString, ⟨3, 4, 12⟩⟩] := by
  have closed : ∀ s ∈ (["a -- '", "1", ".5 'b"] : List String).dropLast, (scan s).Closed := by
    decide +kernel
  obtain ⟨tokens, faults⟩ := scan_join _ (List.cons_ne_nil _ _) closed
  exact ⟨closed, tokens.trans (by decide +kernel), faults.trans (by decide +kernel)⟩

end SqlConsole
