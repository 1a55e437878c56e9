import SqlConsole.Toml.Writer

/-! Strings of a configuration document read back as they were written. Whatever form the writer
takes for a text, the reader of that form undoes it up to the closing marks and no further. -/
namespace SqlConsole

namespace Toml

open Quoted Writer

theorem isPlain_of_isControl {c : Char} (free : isControl c = false) :
    c = '\n' ∨ isPlain c = true := by
  simp only [isControl, isPlain, Bool.or_eq_false_iff, Bool.and_eq_false_iff, Bool.or_eq_true,
    Bool.and_eq_true, decide_eq_false_iff_not, decide_eq_true_eq] at free ⊢
  obtain ⟨(large | tab) | newline, notDelete⟩ := free
  · exact .inr (.inr ⟨Nat.not_lt.mp large, notDelete⟩)
  · exact .inr (.inl (Decidable.not_not.mp tab))
  · exact .inl (Decidable.not_not.mp newline)

theorem ne_return_of_plain {c : Char} (plain : c = '\n' ∨ isPlain c = true) : c ≠ '\r' := by
  rintro rfl
  revert plain
  decide

/-! ## Escapes -/

theorem hexValue?_hexCapital (n : Nat) : hexValue? (hexCapital n) = some (n % 16) := by
  have digits : ∀ d < 16, hexValue? (hexCapital d) = some d := by decide
  have same : hexCapital n = hexCapital (n % 16) := by simp [hexCapital]
  rw [same, digits _ (Nat.mod_lt n (by decide))]

theorem coded?_hexCapital {c : Char} (small : c.toNat < 256) (rest : List Char) :
    coded? 4 ('0' :: '0' :: hexCapital (c.toNat / 16) :: hexCapital c.toNat :: rest) =
      some (c, rest) := by
  have value : 16 * (c.toNat / 16 % 16) + c.toNat % 16 = c.toNat := by omega
  have zero : hexValue? '0' = some 0 := rfl
  have valid : c.toNat.isValidChar := c.valid
  simp only [coded?, hexRun?, hexValue?_hexCapital, zero, Option.pure_def, Option.bind_eq_bind,
    Option.bind_some, Nat.mul_zero, Nat.zero_add, Nat.add_zero, value, if_pos valid,
    Char.ofNat_toNat]

/-- `code` behind a backslash stands for `c`, and the backslash does not continue a line. -/
def Escapes (code : List Char) (c : Char) : Prop :=
  ∀ rest, escape? (code ++ rest) = some (c, rest) ∧ continued? (code ++ rest) = none

theorem escapes_mark : Escapes ['"'] '"' := fun _ => ⟨rfl, rfl⟩

theorem escapes_newline : Escapes ['n'] '\n' := fun _ => ⟨rfl, rfl⟩

/-- Every character but the newline stands for itself or is escaped. -/
theorem escapeChar_cases {c : Char} (inLine : c ≠ '\n') :
    (escapeChar c = [c] ∧ isPlain c = true ∧ c ≠ '\\') ∨
      ∃ code, escapeChar c = '\\' :: code ∧ Escapes code c := by
  by_cases named : c ∈ ['\\', '\t', '\r', '\x08', '\x0c']
  · refine .inr ?_
    simp only [List.mem_cons, List.not_mem_nil, or_false] at named
    rcases named with rfl | rfl | rfl | rfl | rfl <;> exact ⟨_, rfl, fun _ => ⟨rfl, rfl⟩⟩
  · simp only [List.mem_cons, List.not_mem_nil, or_false, not_or] at named
    obtain ⟨backslash, tab, return_, backspace, formFeed⟩ := named
    simp only [escapeChar, backslash, tab, return_, backspace, formFeed, if_false]
    split
    next control =>
      have small : c.toNat < 256 := by
        simp only [isControl, Bool.or_eq_true, Bool.and_eq_true, decide_eq_true_eq] at control
        omega
      exact .inr ⟨_, rfl, fun rest => ⟨coded?_hexCapital small rest, rfl⟩⟩
    next free =>
      have plain := isPlain_of_isControl (by simpa using free)
      exact .inl ⟨rfl, plain.resolve_left inLine, backslash⟩

/-! ## Basic strings on one line -/

theorem basic?_mark (rest : List Char) : basic? ('"' :: rest) = some ([], rest) := by
  rw [basic?]; rfl

theorem basic?_escape {code rest : List Char} {c : Char} (escapes : Escapes code c) :
    basic? ('\\' :: (code ++ rest)) =
      (basic? rest).map fun (body, behind) => (c :: body, behind) := by
  rw [basic?]
  simp only [show ('\\' = '"') = False from by decide, if_false, if_true]
  split
  next none => rw [(escapes rest).1] at none; cases none
  next found =>
    rw [(escapes rest).1] at found
    cases found
    rfl

theorem basic?_plain {c : Char} (mark : c ≠ '"') (backslash : c ≠ '\\') (plain : isPlain c = true)
    (rest : List Char) :
    basic? (c :: rest) = (basic? rest).map fun (body, behind) => (c :: body, behind) := by
  rw [basic?]
  simp [mark, backslash, plain]

theorem basic?_escapeBasic (text behind : List Char) :
    basic? (escapeBasic text ++ '"' :: behind) = some (text, behind) := by
  induction text with
  | nil => exact basic?_mark behind
  | cons c text ih =>
    rw [escapeBasic, List.flatMap_cons, ← escapeBasic, List.append_assoc]
    split
    next mark =>
      subst mark
      exact (basic?_escape escapes_mark).trans (by rw [ih]; rfl)
    next mark =>
      split
      next newline =>
        subst newline
        exact (basic?_escape escapes_newline).trans (by rw [ih]; rfl)
      next inLine =>
        rcases escapeChar_cases inLine with ⟨same, plain, backslash⟩ | ⟨code, same, escapes⟩
        · rw [same, List.singleton_append, basic?_plain mark backslash plain, ih]
          rfl
        · rw [same, List.cons_append, basic?_escape escapes, ih]
          rfl

theorem literal?_text {text : List Char} (free : ∀ c ∈ text, c ≠ '\'' ∧ isPlain c = true)
    (behind : List Char) : literal? (text ++ '\'' :: behind) = some (text, behind) := by
  induction text with
  | nil => rfl
  | cons c text ih =>
    obtain ⟨⟨mark, plain⟩, later⟩ := List.forall_mem_cons.mp free
    rw [List.cons_append, literal?, if_neg mark, if_pos plain, ih later]
    rfl

/-! ## Marks between triple marks -/

theorem few_cases {q : Nat} (few : q ≤ 2) : q = 0 ∨ q = 1 ∨ q = 2 := by omega

theorem closing_replicate {mark : Char} {q : Nat} (few : q ≤ 2) {behind : List Char}
    (apart : behind.head? ≠ some mark) :
    closing mark (List.replicate q mark ++ behind) = (List.replicate q mark, behind) := by
  rcases behind with _ | ⟨a, _ | ⟨b, behind⟩⟩
  · rcases few_cases few with rfl | rfl | rfl <;> simp [closing, List.replicate]
  all_goals
    have other : a ≠ mark := by simpa using apart
    rcases few_cases few with rfl | rfl | rfl <;> simp [closing, List.replicate, other]

/-- How marks are read between triple marks: three in a row close, and one in front of fewer
than two more stands for itself. -/
structure ReadsMarks (mark : Char) (read? : List Char → Option (List Char × List Char)) :
    Prop where
  close : ∀ rest, read? (mark :: mark :: mark :: rest) = some (closing mark rest)
  single : ∀ rest, (∀ more, rest ≠ mark :: mark :: more) →
    read? (mark :: rest) = (read? rest).map fun (body, behind) => (mark :: body, behind)

namespace ReadsMarks

variable {mark : Char} {read? : List Char → Option (List Char × List Char)} {q : Nat}

/-- Up to two marks in front of the closing ones are read as marks. -/
theorem ends (reads : ReadsMarks mark read?) (few : q ≤ 2) {behind : List Char}
    (apart : behind.head? ≠ some mark) :
    read? (List.replicate q mark ++ mark :: mark :: mark :: behind) =
      some (List.replicate q mark, behind) := by
  have front : List.replicate q mark ++ mark :: mark :: mark :: behind =
      mark :: mark :: mark :: (List.replicate q mark ++ behind) := by
    rcases few_cases few with rfl | rfl | rfl <;> rfl
  rw [front, reads.close, closing_replicate few apart]

/-- Up to two marks in front of another character are read as marks. -/
theorem marks (reads : ReadsMarks mark read?) (few : q ≤ 2) {c : Char} (other : c ≠ mark)
    (rest : List Char) : read? (List.replicate q mark ++ c :: rest) =
      (read? (c :: rest)).map fun (body, behind) => (List.replicate q mark ++ body, behind) := by
  have one : ∀ more, c :: rest ≠ mark :: mark :: more := fun _ same =>
    other (List.cons_eq_cons.mp same).1
  have two : ∀ more, mark :: c :: rest ≠ mark :: mark :: more := fun _ same =>
    other (List.cons_eq_cons.mp (List.cons_eq_cons.mp same).2).1
  rcases few_cases few with rfl | rfl | rfl
  · exact Option.map_id'.symm
  · exact reads.single _ one
  · change read? (mark :: mark :: c :: rest) = _
    rw [reads.single _ two, reads.single _ one, Option.map_map]
    rfl

end ReadsMarks

/-! ## Basic strings over several lines -/

theorem basicLines?_plain {c : Char} {rest : List Char} (plain : c = '\n' ∨ isPlain c = true)
    (backslash : c ≠ '\\') (inside : ∀ more, c = '"' → rest ≠ '"' :: '"' :: more) :
    basicLines? (c :: rest) =
      (basicLines? rest).map fun (body, behind) => (c :: body, behind) := by
  have noReturn : ∀ more, c = '\r' → rest = '\n' :: more → False := fun _ same =>
    absurd same (ne_return_of_plain plain)
  rw [basicLines?.eq_4 c rest inside noReturn, if_neg backslash, if_pos plain]

theorem basicLines?_escape {code rest : List Char} {c : Char} (escapes : Escapes code c) :
    basicLines? ('\\' :: (code ++ rest)) =
      (basicLines? rest).map fun (body, behind) => (c :: body, behind) := by
  obtain ⟨found, ends⟩ := escapes rest
  have noMark : ∀ more, '\\' = '"' → code ++ rest = '"' :: '"' :: more → False :=
    fun _ same => absurd same (by decide)
  have noReturn : ∀ more, '\\' = '\r' → code ++ rest = '\n' :: more → False :=
    fun _ same => absurd same (by decide)
  rw [basicLines?.eq_4 _ _ noMark noReturn, if_pos rfl]
  split
  next continued => rw [ends] at continued; cases continued
  next =>
    split
    next none => rw [found] at none; cases none
    next other =>
      rw [found] at other
      cases other
      rfl

theorem basicLines?_escapedMark (rest : List Char) : basicLines? ('\\' :: '"' :: rest) =
    (basicLines? rest).map fun (body, behind) => ('"' :: body, behind) :=
  basicLines?_escape escapes_mark

theorem basicLines_readsMarks : ReadsMarks '"' basicLines? where
  close _ := basicLines?.eq_2 _
  single _ inside := basicLines?_plain (.inr rfl) (by decide) fun more _ => inside more

/-- How a character other than the mark is written between triple marks. -/
def lineChar (c : Char) : List Char := if c = '\n' then ['\n'] else escapeChar c

theorem escapeLines_cons {q : Nat} {c : Char} (other : c ≠ '"') (text : List Char) :
    escapeLines q (c :: text) = lineChar c ++ escapeLines 0 text := by
  rw [escapeLines, if_neg other, lineChar]
  split <;> rfl

theorem lineChar_cases {c : Char} (other : c ≠ '"') : ∃ d more, lineChar c = d :: more ∧
    d ≠ '"' ∧ ∀ rest, basicLines? (lineChar c ++ rest) =
      (basicLines? rest).map fun (body, behind) => (c :: body, behind) := by
  unfold lineChar
  split
  next newline =>
    subst newline
    exact ⟨_, _, rfl, other, fun rest => basicLines?_plain (.inl rfl) (by decide) nofun⟩
  next inLine =>
    rcases escapeChar_cases inLine with ⟨same, plain, backslash⟩ | ⟨code, same, escapes⟩
    · rw [same]
      exact ⟨c, [], rfl, other, fun rest =>
        basicLines?_plain (.inr plain) backslash fun _ mark => absurd mark other⟩
    · rw [same]
      exact ⟨'\\', code, rfl, by decide, fun rest => basicLines?_escape escapes⟩

/-- The marks that stand in front of the text, up to two, are carried along: whether they are
part of a closing mark shows only behind them. -/
theorem basicLines?_escapeLines {q : Nat} (few : q ≤ 2) (text : List Char) {behind : List Char}
    (apart : behind.head? ≠ some '"') :
    basicLines? (List.replicate q '"' ++ (escapeLines q text ++ '"' :: '"' :: '"' :: behind)) =
      some (List.replicate q '"' ++ text, behind) := by
  induction text generalizing q with
  | nil => simpa [escapeLines] using basicLines_readsMarks.ends few apart
  | cons c text ih =>
    have later : basicLines? (escapeLines 0 text ++ '"' :: '"' :: '"' :: behind) =
        some (text, behind) := ih (q := 0) (by decide)
    by_cases mark : c = '"'
    · subst mark
      by_cases full : q = 2
      · subst full
        rw [escapeLines, if_pos rfl, if_pos rfl, List.cons_append,
          basicLines_readsMarks.marks few (by decide), List.cons_append,
          basicLines?_escapedMark, later]
        rfl
      · have more := ih (q := q + 1) (by omega)
        rw [escapeLines, if_pos rfl, if_neg full]
        simpa [List.replicate_succ'] using more
    · obtain ⟨d, more, written, other, read⟩ := lineChar_cases mark
      rw [escapeLines_cons mark, List.append_assoc, written, List.cons_append,
        basicLines_readsMarks.marks few other, ← List.cons_append, ← written, read, later]
      rfl

/-! ## Literal strings over several lines -/

theorem literalLines?_plain {c : Char} {rest : List Char} (plain : c = '\n' ∨ isPlain c = true)
    (inside : ∀ more, c = '\'' → rest ≠ '\'' :: '\'' :: more) :
    literalLines? (c :: rest) =
      (literalLines? rest).map fun (body, behind) => (c :: body, behind) := by
  have noReturn : ∀ more, c = '\r' → rest = '\n' :: more → False := fun _ same =>
    absurd same (ne_return_of_plain plain)
  rw [literalLines?.eq_4 c rest inside noReturn, if_pos plain]

theorem literalLines_readsMarks : ReadsMarks '\'' literalLines? where
  close _ := literalLines?.eq_2 _
  single _ inside := literalLines?_plain (.inr rfl) fun more _ => inside more

theorem noTriple_of_append {mark : Char} {front text : List Char}
    (free : noTriple mark (front ++ text) = true) : noTriple mark text = true := by
  induction front with
  | nil => exact free
  | cons c front ih =>
    refine ih ?_
    rw [List.cons_append] at free
    generalize front ++ text = whole at free ⊢
    rcases whole with _ | ⟨a, _ | ⟨b, whole⟩⟩
    · rfl
    · rfl
    · rw [noTriple, Bool.and_eq_true] at free
      exact free.2

/-- A text in which the mark never stands three times in a row is read as it is. -/
theorem literalLines?_text {q : Nat} (few : q ≤ 2) {text : List Char}
    (plain : ∀ c ∈ text, c = '\n' ∨ isPlain c = true)
    (free : noTriple '\'' (List.replicate q '\'' ++ text) = true) {behind : List Char}
    (apart : behind.head? ≠ some '\'') :
    literalLines? (List.replicate q '\'' ++ (text ++ '\'' :: '\'' :: '\'' :: behind)) =
      some (List.replicate q '\'' ++ text, behind) := by
  induction text generalizing q with
  | nil => simpa using literalLines_readsMarks.ends few apart
  | cons c text ih =>
    obtain ⟨here, later⟩ := List.forall_mem_cons.mp plain
    by_cases mark : c = '\''
    · subst mark
      have fewer : q ≠ 2 := by
        rintro rfl
        cases free
      have more : List.replicate q '\'' ++ '\'' :: text = List.replicate (q + 1) '\'' ++ text := by
        simp [List.replicate_succ']
      rw [more] at free
      simpa [List.replicate_succ'] using ih (by omega) later free
    · have triple : noTriple '\'' ([c] ++ text) = true := noTriple_of_append free
      have read : literalLines? (text ++ '\'' :: '\'' :: '\'' :: behind) = some (text, behind) :=
        ih (q := 0) (by decide) later (noTriple_of_append triple)
      rw [List.cons_append, literalLines_readsMarks.marks few mark,
        literalLines?_plain here fun _ same => absurd same mark, read]
      rfl

/-! ## The form that is taken -/

theorem dropLineEnd_of_ne {c : Char} (newline : c ≠ '\n') (return_ : c ≠ '\r')
    (rest : List Char) : dropLineEnd (c :: rest) = c :: rest := by
  unfold dropLineEnd
  split
  next same => exact absurd (List.cons_eq_cons.mp same).1 newline
  next same => exact absurd (List.cons_eq_cons.mp same).1 return_
  next => rfl

/-- The characters of a text without controls are all plain, apart from its newlines. -/
theorem plain_of_any {text : List Char} (free : text.any isControl = false) :
    ∀ c ∈ text, c = '\n' ∨ isPlain c = true := by
  intro c member
  exact isPlain_of_isControl (by simpa using List.any_eq_false.mp free c member)

theorem style_literal {text : List Char} (taken : style text = .literal) :
    text ≠ [] ∧ ∀ c ∈ text, c ≠ '\'' ∧ isPlain c = true := by
  constructor
  · rintro rfl
    exact absurd taken (by decide)
  · unfold style at taken
    dsimp only at taken
    split at taken
    next => cases taken
    next =>
      split at taken
      next fits =>
        simp only [Bool.and_eq_true, Bool.not_eq_eq_eq_not, Bool.not_true,
          List.contains_eq_mem, decide_eq_false_iff_not] at fits
        obtain ⟨⟨control, mark⟩, newline⟩ := fits
        intro c member
        have inLine : c ≠ '\n' := fun same => newline (same ▸ member)
        exact ⟨fun same => mark (same ▸ member),
          (plain_of_any control c member).resolve_left inLine⟩
      next =>
        iterate 2 (split at taken; cases taken)
        split at taken <;> cases taken

theorem style_literalLines {text : List Char} (taken : style text = .literalLines) :
    text ≠ [] ∧ (∀ c ∈ text, c = '\n' ∨ isPlain c = true) ∧ noTriple '\'' text = true := by
  constructor
  · rintro rfl
    exact absurd taken (by decide)
  · unfold style at taken
    dsimp only at taken
    iterate 3 (split at taken; cases taken)
    split at taken
    next fits =>
      simp only [Bool.and_eq_true, Bool.not_eq_eq_eq_not, Bool.not_true] at fits
      exact ⟨plain_of_any fits.1, fits.2⟩
    next => split at taken <;> cases taken

/-- Behind the opening marks only the line break is dropped that the writer has put there. -/
theorem dropLineEnd_lineBreak {text : List Char} {c : Char}
    (newline : '\n' ∉ text → c ≠ '\n') (return_ : c ≠ '\r') (more : List Char) :
    dropLineEnd (lineBreak text ++ c :: more) = c :: more := by
  unfold lineBreak
  split
  next => rfl
  next single =>
    have free : '\n' ∉ text := by simpa using single
    exact dropLineEnd_of_ne (newline free) return_ more

theorem head?_escapeBasic_ne (text : List Char) : (escapeBasic text).head? ≠ some '"' := by
  cases text with
  | nil => nofun
  | cons c text =>
    rw [escapeBasic, List.flatMap_cons]
    split
    next => nofun
    next mark =>
      split
      next => nofun
      next inLine =>
        rcases escapeChar_cases inLine with ⟨same, _⟩ | ⟨code, same, _⟩
        · rw [same]
          exact fun first => mark (Option.some.inj first)
        · rw [same]
          exact fun first => absurd (Option.some.inj first) (by decide)

theorem escapeLines_head (text behind : List Char) :
    ∃ c more, escapeLines 0 text ++ '"' :: behind = c :: more ∧ ('\n' ∉ text → c ≠ '\n') ∧
      c ≠ '\r' := by
  cases text with
  | nil => exact ⟨'"', behind, rfl, fun _ => by decide, by decide⟩
  | cons c text =>
    by_cases mark : c = '"'
    · subst mark
      exact ⟨'"', _, rfl, fun _ => by decide, by decide⟩
    · rw [escapeLines_cons mark, lineChar]
      split
      next newline =>
        exact ⟨'\n', _, rfl, fun free => absurd (newline ▸ List.mem_cons_self) free, by decide⟩
      next inLine =>
        rcases escapeChar_cases inLine with ⟨same, plain, _⟩ | ⟨code, same, _⟩
        · rw [same]
          exact ⟨c, _, rfl, fun _ => inLine, ne_return_of_plain (.inr plain)⟩
        · rw [same]
          exact ⟨'\\', _, rfl, fun _ => by decide, by decide⟩

/-- Written in whatever form, a string is read back, and nothing behind it is taken. -/
theorem string?_string (text : List Char) {behind : List Char}
    (double : behind.head? ≠ some '"') (single : behind.head? ≠ some '\'') :
    string? (Writer.string text ++ behind) = some (String.ofList text, behind) := by
  unfold Writer.string
  cases taken : style text with
  | basic =>
    have noTriple : ∀ more, escapeBasic text ++ '"' :: behind = '"' :: '"' :: more → False := by
      intro more same
      have first := head?_escapeBasic_ne text
      cases written : escapeBasic text with
      | nil =>
        rw [written] at same
        exact double (by rw [(List.cons_eq_cons.mp same).2]; rfl)
      | cons c rest =>
        rw [written] at same first
        exact first (congrArg some (List.cons_eq_cons.mp same).1)
    simp only [List.cons_append, List.append_assoc, List.nil_append]
    rw [string?.eq_3 _ noTriple, basic?_escapeBasic]
    rfl
  | literal =>
    obtain ⟨nonempty, free⟩ := style_literal taken
    obtain ⟨c, rest, rfl⟩ := List.exists_cons_of_ne_nil nonempty
    have mark : c ≠ '\'' := (free c List.mem_cons_self).1
    have noTriple : ∀ more, c :: rest ++ '\'' :: behind = '\'' :: '\'' :: more → False :=
      fun _ same => mark (List.cons_eq_cons.mp same).1
    simp only [List.cons_append, List.append_assoc, List.nil_append]
    rw [← List.cons_append, string?.eq_4 _ noTriple, literal?_text free]
    rfl
  | basicLines =>
    obtain ⟨c, more, written, newline, return_⟩ := escapeLines_head text ('"' :: '"' :: behind)
    have read := basicLines?_escapeLines (q := 0) (by decide) text double
    simp only [List.cons_append, List.append_assoc, List.nil_append]
    rw [string?.eq_1, written, dropLineEnd_lineBreak newline return_, ← written]
    exact congrArg _ read
  | literalLines =>
    obtain ⟨nonempty, plain, free⟩ := style_literalLines taken
    obtain ⟨c, rest, rfl⟩ := List.exists_cons_of_ne_nil nonempty
    have newline : '\n' ∉ c :: rest → c ≠ '\n' := fun none same => none (by simp [same])
    have return_ := ne_return_of_plain (plain c List.mem_cons_self)
    have read := literalLines?_text (q := 0) (by decide) plain free single
    simp only [List.cons_append, List.append_assoc, List.nil_append]
    rw [string?.eq_2, dropLineEnd_lineBreak newline return_]
    exact congrArg _ read

end Toml

end SqlConsole
