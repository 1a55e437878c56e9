import SqlConsole.Proofs.Scan.Recorder

/-! The head of the scan loop. A recording shows in which states the loop over the lexemes has
stood at its head. Between two of them the scanner reads one lexeme, whatever loops that takes. -/
namespace SqlConsole

/-- The states in which a scan stands at the head of its loop: one in front of each lexeme that it
reads, and the one in which it ends. -/
def Scanner.heads (s : Scanner) : List Scanner :=
  if s.atEnd then [s] else s :: s.scanToken.heads
termination_by s.remaining
decreasing_by exact remaining_scanToken_lt (eq_false_of_ne_true ‹_›)

def Event.lexemesHead? : Event → Option Scanner
  | head .lexemes s => some s
  | _ => none

namespace Recorder

/-- The recorded states at the head of the loop over the lexemes. -/
def heads (r : Recorder) : List Scanner := r.log.filterMap Event.lexemesHead?

variable {loop : Loop} {r : Recorder}

theorem heads_note {event : Event} (other : event.lexemesHead? = none) :
    (r.note event).heads = r.heads := by
  simp [heads, note, other]

theorem heads_atHead (inner : loop ≠ .lexemes) : (r.atHead loop).heads = r.heads := by
  apply heads_note
  cases loop <;> first | rfl | exact absurd rfl inner

theorem heads_atHead_lexemes : (r.atHead .lexemes).heads = r.heads ++ [r.scanner] := by
  simp [heads, atHead, note, Event.lexemesHead?]

@[simp] theorem heads_behindRound (loop : Loop) (before : Scanner) :
    (r.behindRound loop before).heads = r.heads := heads_note rfl

@[simp] theorem heads_skip : r.skip.heads = r.heads := heads_note rfl

@[simp] theorem heads_addLexeme (kind : TokenKind) : (r.addLexeme kind).heads = r.heads :=
  heads_note rfl

theorem heads_round (inner : loop ≠ .lexemes) : (r.round loop).heads = r.heads := by
  simp [round, heads_atHead inner]

theorem heads_roundOfTwo (inner : loop ≠ .lexemes) : (r.roundOfTwo loop).heads = r.heads := by
  simp [roundOfTwo, heads_atHead inner]

/-! ## Readers stand at the heads of other loops -/

theorem heads_skipWhile (inner : loop ≠ .lexemes) (p : Char → Bool) (r : Recorder) :
    (r.skipWhile loop p).heads = r.heads := by
  fun_induction skipWhile loop p r with
  | case1 r => exact heads_atHead inner
  | case2 r c next inside ih => rw [ih, heads_round inner]
  | case3 r => exact heads_atHead inner

theorem heads_readNumber (r : Recorder) : r.readNumber.heads = r.heads := by
  have digits : r.skipNumber.heads = r.heads := by
    unfold skipNumber
    dsimp only
    split <;> simp [heads_skipWhile]
  have sliced : r.skipNumber.slice.heads = r.heads := (heads_note rfl).trans digits
  unfold readNumber
  dsimp only
  split <;> exact sliced

theorem heads_readBody (q : Quote) (value : String) (r : Recorder) :
    (r.readBody q value).2.heads = r.heads := by
  have inner : .body q ≠ Loop.lexemes := by simp
  fun_induction readBody q value r with
  | case1 => exact heads_atHead inner
  | case2 => exact heads_atHead inner
  | case3 value r c next ordinary escaped ih => exact ih.trans (heads_roundOfTwo inner)
  | case4 value r c next ordinary plain ih => exact ih.trans (heads_round inner)

theorem heads_readString (q : Quote) (r : Recorder) : (r.readString q).heads = r.heads := by
  have body := r.heads_readBody q ""
  unfold readString
  dsimp only
  split
  · exact body
  · exact heads_skip.trans body

theorem heads_skipBlockComment (r : Recorder) : r.skipBlockComment.heads = r.heads := by
  have inner : .blockComment ≠ Loop.lexemes := by simp
  fun_induction skipBlockComment r with
  | case1 => exact heads_atHead inner
  | case2 => exact heads_roundOfTwo inner
  | case3 r c next inside ih => exact ih.trans (heads_round inner)

theorem heads_scanToken (r : Recorder) : r.scanToken.heads = r.heads := by
  have first : r.beginLexeme.skip.heads = r.heads := heads_skip
  rw [scanToken, ← first]
  apply readFrom_cases (P := fun t => t.heads = r.beginLexeme.skip.heads)
  case blank => rfl
  case number => exact heads_readNumber _
  case word => simp [readWord, heads_skipWhile]
  case string => exact fun q => heads_readString q _
  case mark => exact fun kind => heads_addLexeme kind
  case fault => exact fun cause => rfl
  case pair => simp
  case lineComment => simp [skipLineComment, heads_skipWhile]
  case blockComment => simp [heads_skipBlockComment]

/-- The recording shows the states of the scanner. -/
theorem heads_scanTokens (r : Recorder) : r.scanTokens.heads = r.heads ++ r.scanner.heads := by
  fun_induction scanTokens r with
  | case1 r here done =>
    rw [Scanner.heads, if_pos done]
    exact heads_atHead_lexemes
  | case2 r here more ih =>
    rw [ih, heads_behindRound, heads_scanToken, heads_atHead_lexemes, scanner_behindRound,
      scanner_scanToken, Scanner.heads.eq_1 r.scanner, if_neg more, List.append_assoc]
    rfl

end Recorder

end SqlConsole
