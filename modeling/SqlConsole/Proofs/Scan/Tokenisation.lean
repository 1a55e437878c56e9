import SqlConsole.Proofs.Lexeme.Longest

/-! A scan is the leftmost-longest tokenisation of its text. The pieces are determined by the
text alone, and tokens and faults are what the pieces yield, each at the place of its first
character. -/
namespace SqlConsole

namespace Tokenisation

theorem flatMap_text {text : List Char} {pieces : List Piece} (cut : Tokenisation text pieces) :
    pieces.flatMap Piece.text = text := by
  induction cut with
  | nil => rfl
  | cons _ _ _ ih => rw [List.flatMap_cons, ih]

theorem text_ne_nil {text : List Char} {pieces : List Piece} (cut : Tokenisation text pieces) :
    ∀ piece ∈ pieces, piece.text ≠ [] := by
  induction cut with
  | nil => simp
  | cons nonempty _ _ ih => exact List.forall_mem_cons.mpr ⟨nonempty, ih⟩

end Tokenisation

def Lexeme.piece (l : Lexeme) : Piece := ⟨l.text, l.yield⟩

theorem tokenisation_lexemes (text : List Char) :
    Tokenisation text ((lexemes text).map Lexeme.piece) := by
  fun_induction lexemes text with
  | case1 => exact .nil
  | case2 c rest ih =>
    have step := Tokenisation.cons (Lexeme.cut_text_ne_nil c rest)
      (Lexeme.cut_longestReading c rest) ih
    rwa [Lexeme.cut_text] at step

/-- There is no other tokenisation. -/
theorem Tokenisation.eq_lexemes {text : List Char} {pieces : List Piece}
    (cut : Tokenisation text pieces) : pieces = (lexemes text).map Lexeme.piece := by
  induction cut with
  | nil => simp [lexemes]
  | @cons text rest y more nonempty longest _ ih =>
    obtain ⟨c, behind, split⟩ := List.exists_cons_of_ne_nil
      (List.append_ne_nil_of_left_ne_nil nonempty rest)
    obtain ⟨same, left, yields⟩ := Lexeme.eq_cut_of_longestReading longest split
    rw [split, lexemes, List.map_cons, ih, left, Lexeme.piece, ← same, ← yields]

theorem Position.behind_after (before text : List Char) :
    (behind before).after text = behind (before ++ text) := by
  rw [← start_after, ← start_after, after_append]

/-- Lexemes placed one behind the other yield what the pieces yield, at the same places. -/
theorem yields_place (before : List Char) (ls : List Lexeme) :
    Piece.yields before (ls.map Lexeme.piece) =
      (place (.behind before) ls).map fun x => (x.position, x.lexeme.yield) := by
  induction ls generalizing before with
  | nil => rfl
  | cons l ls ih =>
    have rest := ih (before ++ l.text)
    rw [← Position.behind_after] at rest
    change (.behind before, l.yield) :: Piece.yields (before ++ l.text) (ls.map Lexeme.piece) = _
    rw [rest]
    rfl

theorem scan_tokens (source : String) :
    (scan source).tokens = Piece.tokens ((lexemes source.toList).map Lexeme.piece) := by
  have texts : ((lexemes source.toList).map Lexeme.piece).flatMap Piece.text = source.toList := by
    rw [List.flatMap_map]
    exact flatMap_text_lexemes source.toList
  rw [Piece.tokens, texts, yields_place, List.filterMap_map]
  change (placedLexemes source.toList).filterMap Placed.token? ++
    [endToken (Position.start.after source.toList)] = _
  rw [Position.start_after]
  congr 2
  funext x
  exact Lexeme.token?_eq x.position x.lexeme

theorem scan_faults (source : String) :
    (scan source).faults = Piece.faults ((lexemes source.toList).map Lexeme.piece) := by
  rw [Piece.faults, yields_place, List.filterMap_map]
  change (placedLexemes source.toList).filterMap Placed.fault? = _
  congr 1
  funext x
  exact Lexeme.fault?_eq x.position x.lexeme

/-- Every text has exactly one leftmost-longest tokenisation, into pieces that are not empty
and make up the text. A scan gives what they yield, in order and with nothing lost or added: a
token at the place of each piece that is one, the end token behind the text, and a fault at
the place of each piece that is faulty. -/
theorem scan_leftmost_longest (source : String) : ∃ pieces : List Piece,
    Tokenisation source.toList pieces ∧
    (∀ other, Tokenisation source.toList other → other = pieces) ∧
    pieces.flatMap Piece.text = source.toList ∧
    (∀ piece ∈ pieces, piece.text ≠ []) ∧
    (scan source).tokens = Piece.tokens pieces ∧
    (scan source).faults = Piece.faults pieces := by
  have cut := tokenisation_lexemes source.toList
  exact ⟨_, cut, fun _ => Tokenisation.eq_lexemes, cut.flatMap_text, cut.text_ne_nil,
    scan_tokens source, scan_faults source⟩

end SqlConsole
