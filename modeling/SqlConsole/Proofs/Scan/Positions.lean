import Mathlib.Data.List.Pairwise
import SqlConsole.Proofs.Scan.Tokenisation

/-! Where tokens and faults stand. Every place in a scan is counted correctly in the text, names
the first character of its lexeme, and is taken only once. -/
namespace SqlConsole

/-- The place agrees with the text up to it, and in the text cut at its newlines it names the
character at its offset. Behind the last character it names none. -/
structure ExactPlace (text : List Char) (p : Position) : Prop where
  offset : p.offset ≤ text.length
  line : p.line = 1 + (text.take p.offset).count '\n'
  column : p.column = 1 + lastLineLength (text.take p.offset)
  character : (fields '\n' text)[p.line - 1]?.bind (·[p.column - 1]?) = text[p.offset]?

/-- The lexeme of the token begins at its offset. A string begins with its quote mark, the end
token stands behind all characters, and any other token begins with its own value. -/
def Token.BeginsIn (t : Token) (text : List Char) : Prop :=
  match t.kind with
  | .endOfText => t.position.offset = text.length
  | .string => ∃ q : Quote,
    q.char :: (q.escape t.value.toList ++ [q.char]) <+: text.drop t.position.offset
  | _ => t.value ≠ "" ∧ t.value.toList <+: text.drop t.position.offset

/-- The lexeme that caused the fault begins at its offset. -/
def ScanFault.BeginsIn (f : ScanFault) (text : List Char) : Prop :=
  match f.cause with
  | .loneBang => text[f.position.offset]? = some '!'
  | .unexpectedCharacter c => text[f.position.offset]? = some c
  | .unterminatedString => ∃ q : Quote, text[f.position.offset]? = some q.char
  | .unterminatedComment => ['/', '*'] <+: text.drop f.position.offset
  | .invalidNumber _ => False

theorem exactPlace_behind {before rest : List Char} (inLine : rest.head? ≠ some '\n') :
    ExactPlace (before ++ rest) (.behind before) where
  offset := by simp [Position.behind]
  line := by simp [Position.behind]
  column := by simp [Position.behind]
  character := by
    simp only [Position.behind, Nat.add_sub_cancel_left, fields_behind before rest inLine]
    rw [List.getElem?_append_right (Nat.le_refl _), Nat.sub_self, List.head?_eq_getElem?]

namespace Reading

theorem token_cases {text rest : List Char} {kind : TokenKind} {value : List Char}
    {number : Option Binary64} (reading : Reading text rest (.token kind value number)) :
    (kind = .string ∧ ∃ q : Quote, text = q.char :: (q.escape value ++ [q.char])) ∨
    (kind ≠ .string ∧ kind ≠ .endOfText ∧ text = value) := by
  cases reading with
  | @quoted q _ _ _ _ _ escaped => exact .inl ⟨rfl, q, by rw [escaped]⟩
  | whole => exact .inr ⟨nofun, nofun, rfl⟩
  | decimal => exact .inr ⟨nofun, nofun, rfl⟩
  | keyword => exact .inr ⟨nofun, nofun, rfl⟩
  | identifier => exact .inr ⟨nofun, nofun, rfl⟩
  | sign member =>
    have plain : ∀ x ∈ signs, x.2 ≠ .string ∧ x.2 ≠ .endOfText := by decide
    exact .inr ⟨(plain _ member).1, (plain _ member).2, rfl⟩

theorem newline_notMem_digits {text : List Char} (valid : Digits text) : '\n' ∉ text :=
  fun member => absurd (valid.2 _ member) (by decide)

/-- Only blanks begin with a newline. -/
theorem head?_ne_newline {text rest : List Char} {y : Yield} (reading : Reading text rest y)
    (yields : y ≠ .nothing) : text.head? ≠ some '\n' := by
  intro head
  obtain ⟨after, rfl⟩ := List.head?_eq_some_iff.mp head
  have first : '\n' ∈ '\n' :: after := List.mem_cons_self
  generalize eq : '\n' :: after = text at reading first
  cases reading with
  | blank => exact yields rfl
  | lineComment => exact yields rfl
  | blockComment => exact yields rfl
  | openComment => cases eq
  | @quoted q => cases q <;> cases eq
  | @openQuote q => cases q <;> cases eq
  | whole valid => exact newline_notMem_digits valid first
  | @decimal digits _ _ valid =>
    cases digits with
    | nil => exact valid.1 rfl
    | cons d digits =>
      cases eq
      exact newline_notMem_digits valid List.mem_cons_self
  | keyword start => cases eq; exact absurd start (by decide)
  | identifier start => cases eq; exact absurd start (by decide)
  | sign member =>
    have plain : ∀ x ∈ signs, x.1.head? ≠ some '\n' := by decide
    exact plain _ member (by rw [← eq]; rfl)
  | bang => cases eq
  | other plain => cases eq; exact plain (by decide)

end Reading

namespace Piece

/-- What is yielded at some place is yielded by a lexeme that begins there. -/
theorem mem_yields {text before : List Char} {pieces : List Piece} {p : Position} {y : Yield}
    (cut : Tokenisation text pieces) (member : (p, y) ∈ yields before pieces) :
    ∃ ahead lexeme rest, text = ahead ++ (lexeme ++ rest) ∧ lexeme ≠ [] ∧
      Reading lexeme rest y ∧ p = .behind (before ++ ahead) := by
  induction cut generalizing before with
  | nil => cases member
  | @cons lexeme rest z more nonempty longest _ ih =>
    rcases List.mem_cons.mp member with here | later
    · cases here
      exact ⟨[], lexeme, rest, rfl, nonempty, longest.reading, by rw [List.append_nil]⟩
    · obtain ⟨ahead, found, behind, split, taken, reading, place⟩ := ih later
      refine ⟨lexeme ++ ahead, found, behind, ?_, taken, reading, ?_⟩
      · rw [split, List.append_assoc]
      · rw [place, List.append_assoc]

theorem mem_tokens {pieces : List Piece} {t : Token} (member : t ∈ tokens pieces) :
    (∃ p kind value number, (p, .token kind value number) ∈ yields [] pieces ∧
      t = ⟨kind, String.ofList value, p, number⟩) ∨
    t = ⟨.endOfText, "", .behind (pieces.flatMap text), none⟩ := by
  rcases List.mem_append.mp member with found | last
  · obtain ⟨⟨p, y⟩, yielded, token⟩ := List.mem_filterMap.mp found
    cases y with
    | token kind value number => exact .inl ⟨p, kind, value, number, yielded, by cases token; rfl⟩
    | nothing => cases token
    | fault => cases token
  · exact .inr (List.mem_singleton.mp last)

theorem mem_faults {pieces : List Piece} {f : ScanFault} (member : f ∈ faults pieces) :
    ∃ p cause, (p, .fault cause) ∈ yields [] pieces ∧ f = ⟨cause, p⟩ := by
  obtain ⟨⟨p, y⟩, yielded, fault⟩ := List.mem_filterMap.mp member
  cases y with
  | fault cause => exact ⟨p, cause, yielded, by cases fault; rfl⟩
  | nothing => cases fault
  | token => cases fault

theorem le_offset_yields {before : List Char} {pieces : List Piece} {x : Position × Yield}
    (member : x ∈ yields before pieces) : before.length ≤ x.1.offset := by
  induction pieces generalizing before with
  | nil => cases member
  | cons piece pieces ih =>
    rcases List.mem_cons.mp member with rfl | later
    · exact Nat.le_refl _
    · have bound := ih later
      rw [List.length_append] at bound
      omega

/-- Pieces that are not empty have places of their own, in order. -/
theorem yields_ordered {before : List Char} {pieces : List Piece}
    (nonempty : ∀ piece ∈ pieces, piece.text ≠ []) :
    (yields before pieces).Pairwise fun a b => a.1.offset < b.1.offset := by
  induction pieces generalizing before with
  | nil => exact .nil
  | cons piece pieces ih =>
    obtain ⟨here, later⟩ := List.forall_mem_cons.mp nonempty
    refine .cons (fun x member => ?_) (ih later)
    have bound := le_offset_yields member
    have taken := List.length_pos_iff.mpr here
    rw [List.length_append] at bound
    change before.length < x.1.offset
    omega

end Piece

theorem Token.beginsIn_of_value {t : Token} {text : List Char} (plain : t.kind ≠ .string)
    (inner : t.kind ≠ .endOfText) (nonempty : t.value ≠ "")
    (begins : t.value.toList <+: text.drop t.position.offset) : t.BeginsIn text := by
  unfold BeginsIn
  split
  next last => exact absurd last inner
  next quoted => exact absurd quoted plain
  next => exact ⟨nonempty, begins⟩

theorem drop_behind (before rest : List Char) :
    (before ++ rest).drop (Position.behind before).offset = rest := List.drop_left

theorem getElem?_behind (before rest : List Char) :
    (before ++ rest)[(Position.behind before).offset]? = rest.head? := by
  rw [← List.head?_drop, drop_behind]

namespace Tokenisation

variable {text : List Char} {pieces : List Piece}

theorem token_exact (cut : Tokenisation text pieces) {t : Token}
    (member : t ∈ Piece.tokens pieces) : ExactPlace text t.position ∧ t.BeginsIn text := by
  rcases Piece.mem_tokens member with ⟨p, kind, value, number, yielded, rfl⟩ | rfl
  · obtain ⟨ahead, lexeme, rest, rfl, nonempty, reading, rfl⟩ := Piece.mem_yields cut yielded
    have inLine : (lexeme ++ rest).head? ≠ some '\n' := by
      rw [List.head?_append_of_ne_nil _ nonempty]
      exact reading.head?_ne_newline nofun
    refine ⟨exactPlace_behind inLine, ?_⟩
    rcases reading.token_cases with ⟨rfl, q, rfl⟩ | ⟨plain, inner, rfl⟩
    · refine ⟨q, ?_⟩
      rw [List.nil_append, drop_behind, String.toList_ofList]
      exact List.prefix_append _ _
    · refine Token.beginsIn_of_value plain inner ?_ ?_
      · intro empty
        exact nonempty (by simpa using congrArg String.toList empty)
      · rw [List.nil_append, drop_behind, String.toList_ofList]
        exact List.prefix_append _ _
  · rw [cut.flatMap_text]
    have place : ExactPlace (text ++ []) (.behind text) := exactPlace_behind nofun
    rw [List.append_nil] at place
    exact ⟨place, rfl⟩

theorem fault_exact (cut : Tokenisation text pieces) {f : ScanFault}
    (member : f ∈ Piece.faults pieces) : ExactPlace text f.position ∧ f.BeginsIn text := by
  obtain ⟨p, cause, yielded, rfl⟩ := Piece.mem_faults member
  obtain ⟨ahead, lexeme, rest, rfl, nonempty, reading, rfl⟩ := Piece.mem_yields cut yielded
  have inLine : (lexeme ++ rest).head? ≠ some '\n' := by
    rw [List.head?_append_of_ne_nil _ nonempty]
    exact reading.head?_ne_newline nofun
  refine ⟨exactPlace_behind inLine, ?_⟩
  cases reading with
  | openComment =>
    change _ <+: List.drop _ _
    rw [List.nil_append, drop_behind]
    exact ⟨_, rfl⟩
  | @openQuote q => exact ⟨q, getElem?_behind ahead _⟩
  | bang => exact getElem?_behind ahead _
  | other => exact getElem?_behind ahead _

theorem offset_lt (cut : Tokenisation text pieces) {x : Position × Yield}
    (member : x ∈ Piece.yields [] pieces) : x.1.offset < text.length := by
  obtain ⟨ahead, lexeme, rest, rfl, nonempty, _, place⟩ := Piece.mem_yields cut member
  have taken := List.length_pos_iff.mpr nonempty
  rw [place, List.nil_append, List.length_append, List.length_append]
  change ahead.length < _
  omega

theorem tokens_ordered (cut : Tokenisation text pieces) :
    (Piece.tokens pieces).Pairwise fun a b => a.position.offset < b.position.offset := by
  refine List.pairwise_append.mpr ⟨?_, List.pairwise_singleton _ _, ?_⟩
  · refine List.Pairwise.filterMap _ ?_ (Piece.yields_ordered cut.text_ne_nil)
    rintro ⟨p, y⟩ ⟨p', y'⟩ before t token t' token'
    cases y <;> cases token
    cases y' <;> cases token'
    exact before
  · intro t member last isEnd
    rw [List.mem_singleton.mp isEnd, cut.flatMap_text]
    obtain ⟨⟨p, y⟩, yielded, token⟩ := List.mem_filterMap.mp member
    cases y <;> cases token
    exact cut.offset_lt yielded

theorem faults_ordered (cut : Tokenisation text pieces) :
    (Piece.faults pieces).Pairwise fun a b => a.position.offset < b.position.offset := by
  refine List.Pairwise.filterMap _ ?_ (Piece.yields_ordered cut.text_ne_nil)
  rintro ⟨p, y⟩ ⟨p', y'⟩ before f fault f' fault'
  cases y <;> cases fault
  cases y' <;> cases fault'
  exact before

/-- One place yields one thing only. -/
theorem tokens_apart (cut : Tokenisation text pieces) {t : Token} {f : ScanFault}
    (token : t ∈ Piece.tokens pieces) (fault : f ∈ Piece.faults pieces) :
    t.position.offset ≠ f.position.offset := by
  obtain ⟨p, cause, yielded, rfl⟩ := Piece.mem_faults fault
  rcases Piece.mem_tokens token with ⟨p', kind, value, number, yielded', rfl⟩ | rfl
  · have apart : (Piece.yields [] pieces).Pairwise fun a b => a.1.offset ≠ b.1.offset :=
      (Piece.yields_ordered cut.text_ne_nil).imp Nat.ne_of_lt
    have : Std.Symm fun a b : Position × Yield => a.1.offset ≠ b.1.offset :=
      ⟨fun _ _ h => h.symm⟩
    exact apart.forall yielded' yielded nofun
  · rw [cut.flatMap_text]
    exact (cut.offset_lt yielded).ne'

end Tokenisation

/-- Every token and every fault of a scan has an exact place, which is that of the first
character of its lexeme. The places of the tokens, the end token included, are in strictly
increasing order, and so are those of the faults; no token shares its place with a fault. -/
theorem scan_positions_exact (source : String) :
    (∀ t ∈ (scan source).tokens,
      ExactPlace source.toList t.position ∧ t.BeginsIn source.toList) ∧
    (∀ f ∈ (scan source).faults,
      ExactPlace source.toList f.position ∧ f.BeginsIn source.toList) ∧
    (∃ t ∈ (scan source).tokens, t.kind = .endOfText) ∧
    (scan source).tokens.Pairwise (fun a b => a.position.offset < b.position.offset) ∧
    (scan source).faults.Pairwise (fun a b => a.position.offset < b.position.offset) ∧
    ∀ t ∈ (scan source).tokens, ∀ f ∈ (scan source).faults,
      t.position.offset ≠ f.position.offset := by
  have cut := tokenisation_lexemes source.toList
  rw [scan_tokens, scan_faults]
  exact ⟨fun _ => cut.token_exact, fun _ => cut.fault_exact,
    ⟨_, List.mem_append_right _ List.mem_cons_self, rfl⟩, cut.tokens_ordered, cut.faults_ordered,
    fun _ token _ => cut.tokens_apart token⟩

end SqlConsole
