import Mathlib.Data.List.Forall2
import SqlConsole.Proofs.Lexeme.Separation
import SqlConsole.Proofs.Text.Runs

/-! Where a lexeme stops. Whether the text behind a lexeme goes on with it is decided by at most
two characters, so a row of lexemes is the cut of its own text exactly when each of them stops
where the next begins. What is done to a cut text can then be said of its lexemes. -/
namespace SqlConsole

namespace Lexeme

/-- The lexeme is one of its kind, whatever stands behind it. -/
def WellFormed : Lexeme → Prop
  | blank c => isBlank c = true
  | lineComment body => '\n' ∉ body
  | blockComment body => NoCommentEnd (body ++ ['*'])
  | openComment body => NoCommentEnd body
  | quoted q body => NoClosingMark q body ∧ body.getLast? ≠ some '\\'
  | openQuote q body => NoClosingMark q body
  | whole digits => Digits digits
  | decimal first second => Digits first ∧ Digits second
  | word letters => ∃ c more, letters = c :: more ∧ isWordStart c = true ∧
      ∀ d ∈ more, isWordPart d = true
  | mark _ => True
  | stray c => isBlank c = false ∧ isDigit c = false ∧ isWordStart c = false ∧
      Quote.ofChar? c = none ∧ Mark.ofChar? c = none

/-- The text behind the lexeme does not go on with it. Only a numeral without a point asks for
the second character; constructs that are never closed go on up to the end. -/
def StopsAt (behind : List Char) : Lexeme → Prop
  | blank _ | blockComment _ | quoted _ _ => True
  | lineComment _ => ∀ c ∈ behind.head?, c = '\n'
  | openComment _ | openQuote _ _ => behind.head? = none
  | whole _ => (∀ c ∈ behind.head?, isDigit c = false) ∧
      (behind.head? = some '.' → ∀ d ∈ behind.tail.head?, isDigit d = false)
  | decimal _ _ => ∀ c ∈ behind.head?, isDigit c = false
  | word _ => ∀ c ∈ behind.head?, isWordPart c = false
  | mark m => ∀ c, m.text = [c] → ∀ e ∈ behind.head?, (c, e) ∉ pairs
  | stray c => ∀ e ∈ behind.head?, (c, e) ∉ pairs

theorem StopsAt.congr {l : Lexeme} {behind behind' : List Char} (stops : l.StopsAt behind)
    (first : behind'.head? = behind.head?) (second : behind'.tail.head? = behind.tail.head?) :
    l.StopsAt behind' := by
  unfold StopsAt at stops ⊢
  rwa [first, second]

theorem notMem_pairs_space (c : Char) : (c, ' ') ∉ pairs := by simp [pairs]

/-! ## Other characters behind -/

/-- What does not go on with the first character does not go on with the second one either. -/
structure NoFurther (c d : Char) : Prop where
  digit : isDigit c = false → isDigit d = false
  part : isWordPart c = false → isWordPart d = false
  sign : ∀ first, (first, c) ∉ pairs → (first, d) ∉ pairs
  point : d = '.' → c = '.'

theorem NoFurther.refl (c : Char) : NoFurther c c := ⟨id, id, fun _ => id, id⟩

/-- The second text stops whatever the first one stops, line comments apart. -/
structure StopsAsSoon (behind behind' : List Char) : Prop where
  end_of_end : behind = [] → behind' = []
  first : ∀ d ∈ behind'.head?, ∃ c ∈ behind.head?, NoFurther c d
  second : behind'.head? = some '.' →
    ∀ d ∈ behind'.tail.head?, ∃ c ∈ behind.tail.head?, NoFurther c d

theorem exists_noFurther_head? {behind behind' : List Char}
    (same : List.Forall₂ NoFurther behind behind') :
    ∀ d ∈ behind'.head?, ∃ c ∈ behind.head?, NoFurther c d := by
  cases same with
  | nil => exact nofun
  | @cons c d _ _ here _ =>
    rintro e ⟨⟩
    exact ⟨c, rfl, here⟩

/-- Character by character. -/
theorem stopsAsSoon_of_forall₂ {behind behind' : List Char}
    (same : List.Forall₂ NoFurther behind behind') : StopsAsSoon behind behind' := by
  refine ⟨?_, exists_noFurther_head? same, fun _ => exists_noFurther_head? ?_⟩
  · rintro rfl
    cases same
    rfl
  · cases same with
    | nil => exact .nil
    | cons _ later => exact later

theorem StopsAt.of_stopsAsSoon {l : Lexeme} {behind behind' : List Char}
    (stops : l.StopsAt behind) (asSoon : StopsAsSoon behind behind')
    (other : ∀ body, l ≠ lineComment body) : l.StopsAt behind' := by
  have outside {p : Char → Prop} (kept : ∀ c d, NoFurther c d → p c → p d)
      (here : ∀ c ∈ behind.head?, p c) : ∀ d ∈ behind'.head?, p d := by
    intro d begins
    obtain ⟨c, first, noFurther⟩ := asSoon.first d begins
    exact kept c d noFurther (here c first)
  cases l with
  | blank | blockComment | quoted => trivial
  | lineComment body => exact absurd rfl (other body)
  | openComment | openQuote =>
    rw [asSoon.end_of_end (List.head?_eq_none_iff.mp stops)]
    rfl
  | whole digits =>
    refine ⟨outside (fun _ _ noFurther => noFurther.digit) stops.1, fun point d next => ?_⟩
    obtain ⟨c, first, here⟩ := asSoon.first '.' point
    obtain ⟨e, second, later⟩ := asSoon.second point d next
    obtain rfl : c = '.' := here.point rfl
    exact later.digit (stops.2 first e second)
  | decimal => exact outside (fun _ _ noFurther => noFurther.digit) stops
  | word => exact outside (fun _ _ noFurther => noFurther.part) stops
  | mark m => exact fun c single => outside (fun _ _ noFurther => noFurther.sign c) (stops c single)
  | stray c => exact outside (fun _ _ noFurther => noFurther.sign c) stops

/-! ## What is cut off stops -/

theorem cutNumber_stops {c : Char} (digit : isDigit c = true) (rest : List Char) :
    (cutNumber (c :: rest)).1.WellFormed ∧
      (cutNumber (c :: rest)).1.StopsAt (cutNumber (c :: rest)).2 := by
  have valid := digits_takeWhile digit rest
  have outside := head?_dropWhile isDigit (c :: rest)
  unfold cutNumber
  split
  next d after found =>
    rw [found] at outside
    split
    next second =>
      have behind := digits_takeWhile second after
      rw [List.takeWhile_cons_of_pos second] at behind
      exact ⟨⟨valid, behind⟩, head?_dropWhile isDigit after⟩
    next second =>
      refine ⟨valid, outside, fun _ e next => ?_⟩
      cases next
      simpa using second
  next noFraction =>
    refine ⟨valid, outside, fun point d next => ?_⟩
    obtain ⟨more, found⟩ := List.head?_eq_some_iff.mp point
    rw [found] at next
    obtain ⟨more, rfl⟩ := List.head?_eq_some_iff.mp next
    exact absurd found (noFraction d more)

theorem cutWord_stops {c : Char} (start : isWordStart c = true) (rest : List Char) :
    (cutWord (c :: rest)).1.WellFormed ∧
      (cutWord (c :: rest)).1.StopsAt (cutWord (c :: rest)).2 := by
  refine ⟨⟨c, rest.takeWhile isWordPart, ?_, start, fun d => List.mem_takeWhile_imp⟩, ?_⟩
  · exact List.takeWhile_cons_of_pos (isWordPart_of_isWordStart start)
  · exact head?_dropWhile isWordPart (c :: rest)

theorem cutQuoted_stops (q : Quote) (rest : List Char) :
    (cutQuoted q rest).1.WellFormed ∧ (cutQuoted q rest).1.StopsAt (cutQuoted q rest).2 := by
  unfold cutQuoted
  split
  next found => exact ⟨noClosingMark_of_quotedBody found, trivial⟩
  next none => exact ⟨quotedBody_eq_none_iff.mp none, rfl⟩

theorem cutComment_stops (rest : List Char) :
    (cutComment rest).1.WellFormed ∧ (cutComment rest).1.StopsAt (cutComment rest).2 := by
  unfold cutComment
  split
  next found => exact ⟨noCommentEnd_of_commentBody found, trivial⟩
  next none => exact ⟨commentBody_eq_none_iff.mp none, rfl⟩

/-- The lexemes that two characters at once begin. -/
theorem cutMark_pair {c e : Char} (pair : (c, e) ∈ pairs) (rest : List Char) :
    (cutMark c (e :: rest)).1.WellFormed ∧
      (cutMark c (e :: rest)).1.StopsAt (cutMark c (e :: rest)).2 := by
  simp only [pairs, List.mem_cons, Prod.mk.injEq, List.not_mem_nil, or_false] at pair
  have two (m : Mark) (longer : m.text.length = 2) :
      (mark m).WellFormed ∧ (mark m).StopsAt rest :=
    ⟨trivial, fun c single => by simp [single] at longer⟩
  rcases pair with ⟨rfl, rfl⟩ | ⟨rfl, rfl⟩ | ⟨rfl, rfl⟩ | ⟨rfl, rfl⟩ | ⟨rfl, rfl⟩ | ⟨rfl, rfl⟩
  · refine ⟨fun newline => ?_, fun c first => ?_⟩
    · simpa using List.mem_takeWhile_imp newline
    · simpa using head?_dropWhile (fun c => decide (c ≠ '\n')) rest c first
  · exact cutComment_stops rest
  · exact two (.operator .lessEqual) rfl
  · exact two .angles rfl
  · exact two (.operator .greaterEqual) rfl
  · exact two (.operator .notEqual) rfl

theorem cutMark_stops {c : Char} (blank : isBlank c = false) (digit : isDigit c = false)
    (start : isWordStart c = false) (quote : Quote.ofChar? c = none) (rest : List Char) :
    (cutMark c rest).1.WellFormed ∧ (cutMark c rest).1.StopsAt (cutMark c rest).2 := by
  by_cases single : ∀ e ∈ rest.head?, (c, e) ∉ pairs
  · rw [cutMark_alone_of_notMem single, alone]
    cases found : Mark.ofChar? c with
    | none => exact ⟨⟨blank, digit, start, quote, found⟩, single⟩
    | some m =>
      refine ⟨trivial, fun d same => ?_⟩
      rw [Mark.text_of_ofChar? found] at same
      cases same
      exact single
  · simp only [not_forall, not_not] at single
    obtain ⟨e, first, pair⟩ := single
    obtain ⟨more, rfl⟩ := List.head?_eq_some_iff.mp first
    exact cutMark_pair pair more

theorem cut_stops (c : Char) (rest : List Char) :
    (cut c rest).1.WellFormed ∧ (cut c rest).1.StopsAt (cut c rest).2 := by
  unfold cut
  split
  next blank => exact ⟨blank, trivial⟩
  next blank =>
    split
    next digit => exact cutNumber_stops digit rest
    next digit =>
      split
      next start => exact cutWord_stops start rest
      next start =>
        split
        next q _ => exact cutQuoted_stops q rest
        next quote =>
          exact cutMark_stops (by simpa using blank) (by simpa using digit)
            (by simpa using start) quote rest

/-! ## What stops is cut off -/

variable {behind : List Char}

theorem cutNumber_whole {digits : List Char} (valid : Digits digits)
    (stops : (whole digits).StopsAt behind) :
    cutNumber (digits ++ behind) = (whole digits, behind) := by
  obtain ⟨outside, noFraction⟩ := stops
  obtain ⟨taken, left⟩ := takeWhile_of_stop valid.2 outside
  unfold cutNumber
  rw [taken, left]
  split
  next d rest =>
    have : isDigit d = false := noFraction rfl d rfl
    simp [this]
  next => rfl

theorem cutNumber_decimal {first second : List Char} (valid : Digits first)
    (fraction : Digits second) (outside : ∀ c ∈ behind.head?, isDigit c = false) :
    cutNumber (first ++ '.' :: second ++ behind) = (decimal first second, behind) := by
  obtain ⟨d, second, rfl⟩ := List.exists_cons_of_ne_nil fraction.1
  obtain ⟨digit, digits⟩ := List.forall_mem_cons.mp fraction.2
  have point : ∀ c ∈ ('.' :: d :: (second ++ behind)).head?, isDigit c = false := by
    rintro c ⟨⟩
    rfl
  obtain ⟨taken, left⟩ := takeWhile_of_stop valid.2 point
  obtain ⟨taken', left'⟩ := takeWhile_of_stop digits outside
  simp only [List.append_assoc, List.cons_append, cutNumber, taken, left, digit, if_true, taken',
    left']

theorem cutWord_stop {letters : List Char} (parts : ∀ c ∈ letters, isWordPart c = true)
    (outside : ∀ c ∈ behind.head?, isWordPart c = false) :
    cutWord (letters ++ behind) = (word letters, behind) := by
  obtain ⟨taken, left⟩ := takeWhile_of_stop parts outside
  rw [cutWord, taken, left]

theorem cut_mark_stop {c : Char} {m : Mark} {rest : List Char} (stops : (mark m).StopsAt behind)
    (split : m.text ++ behind = c :: rest) : cut c rest = (mark m, behind) := by
  have one {d : Char} (single : Mark.ofChar? d = some m) : cut c rest = (mark m, behind) := by
    have same := Mark.text_of_ofChar? single
    rw [same, List.singleton_append] at split
    obtain ⟨rfl, rfl⟩ := List.cons_eq_cons.mp split
    rw [cut_mark single, cutMark_alone_of_notMem (stops d same), alone, single]
  rcases m with (_ | _ | _ | _ | _ | _ | _ | _ | _ | _ | _) | (_ | _ | _ | _ | _) | _
  · exact one (d := '=') rfl
  · cases split; rfl
  · exact one (d := '<') rfl
  · cases split; rfl
  · exact one (d := '>') rfl
  · cases split; rfl
  · exact one (d := '+') rfl
  · exact one (d := '-') rfl
  · exact one (d := '*') rfl
  · exact one (d := '/') rfl
  · exact one (d := '%') rfl
  · exact one (d := '(') rfl
  · exact one (d := ')') rfl
  · exact one (d := ',') rfl
  · exact one (d := ';') rfl
  · exact one (d := '.') rfl
  · cases split; rfl

/-- A lexeme at the front of a text is the one that is cut off if it stops there. -/
theorem cut_of_stops {l : Lexeme} {c : Char} {rest : List Char} (formed : l.WellFormed)
    (stops : l.StopsAt behind) (split : l.text ++ behind = c :: rest) :
    cut c rest = (l, behind) := by
  cases l with
  | blank d => cases split; exact cut_blank formed behind
  | lineComment body =>
    obtain ⟨rfl, rfl⟩ : c = '-' ∧ rest = '-' :: (body ++ behind) := by
      simpa [text, eq_comm] using split
    have inside : ∀ c ∈ body, (decide (c ≠ '\n')) = true := fun c member =>
      decide_eq_true fun newline => formed (newline ▸ member)
    have outside : ∀ c ∈ behind.head?, (decide (c ≠ '\n')) = false := fun c first =>
      decide_eq_false (not_not.mpr (stops c first))
    obtain ⟨taken, left⟩ := takeWhile_of_stop inside outside
    rw [cut_dashes, taken, left]
  | blockComment body =>
    obtain ⟨rfl, rfl⟩ : c = '/' ∧ rest = '*' :: (body ++ '*' :: '/' :: behind) := by
      simpa [text, eq_comm] using split
    rw [cut_slashStar, cutComment_closed formed]
  | openComment body =>
    obtain rfl : behind = [] := by simpa [StopsAt] using stops
    cases split
    rw [List.append_eq, List.append_nil, cut_slashStar, cutComment_open formed]
  | quoted q body =>
    obtain ⟨rfl, rfl⟩ : c = q.char ∧ rest = body ++ q.char :: behind := by
      simpa [text, eq_comm] using split
    rw [cut_quote, cutQuoted_closed formed.1 formed.2]
  | openQuote q body =>
    obtain rfl : behind = [] := by simpa [StopsAt] using stops
    cases split
    rw [List.append_eq, List.append_nil, cut_quote, cutQuoted_open formed]
  | whole digits =>
    obtain ⟨d, more, rfl⟩ := List.exists_cons_of_ne_nil formed.1
    have cutOff := cutNumber_whole formed stops
    cases split
    rw [cut_digit (formed.2 _ List.mem_cons_self)]
    exact cutOff
  | decimal first second =>
    obtain ⟨valid, fraction⟩ := formed
    have cutOff := cutNumber_decimal valid fraction stops
    obtain ⟨d, more, rfl⟩ := List.exists_cons_of_ne_nil valid.1
    cases split
    rw [cut_digit (valid.2 _ List.mem_cons_self)]
    exact cutOff
  | word letters =>
    obtain ⟨d, more, rfl, start, parts⟩ := formed
    have all : ∀ c ∈ d :: more, isWordPart c = true :=
      List.forall_mem_cons.mpr ⟨isWordPart_of_isWordStart start, parts⟩
    have cutOff := cutWord_stop all stops
    cases split
    rw [cut_wordStart start]
    exact cutOff
  | mark m => exact cut_mark_stop stops split
  | stray d =>
    obtain ⟨rfl, rfl⟩ : c = d ∧ rest = behind := by simpa [text, eq_comm] using split
    obtain ⟨blank, digit, start, quote, single⟩ := formed
    simp only [cut, blank, digit, start, quote, Bool.false_eq_true, if_false]
    rw [cutMark_alone_of_notMem stops, alone, single]

end Lexeme

/-! ## Rows of lexemes -/

/-- Every lexeme of the row stops where the text of the next one begins. -/
def Parted : List Lexeme → Prop
  | [] => True
  | l :: more => l.WellFormed ∧ l.StopsAt (more.flatMap Lexeme.text) ∧ Parted more

theorem parted_lexemes (text : List Char) : Parted (lexemes text) := by
  fun_induction lexemes text with
  | case1 => trivial
  | case2 c rest ih =>
    obtain ⟨formed, stops⟩ := Lexeme.cut_stops c rest
    refine ⟨formed, ?_, ih⟩
    rwa [flatMap_text_lexemes]

theorem Parted.wellFormed {ls : List Lexeme} (parted : Parted ls) : ∀ l ∈ ls, l.WellFormed := by
  induction ls with
  | nil => simp
  | cons l ls ih => exact List.forall_mem_cons.mpr ⟨parted.1, ih parted.2.2⟩

theorem Lexeme.WellFormed.text_ne_nil {l : Lexeme} (formed : l.WellFormed) : l.text ≠ [] := by
  cases l with
  | whole digits => exact formed.1
  | word letters =>
    obtain ⟨c, more, rfl, _⟩ := formed
    exact List.cons_ne_nil c more
  | mark m => exact m.text_ne_nil
  | _ => simp [Lexeme.text]

theorem lexemes_append_of_stops {l : Lexeme} {behind : List Char} (formed : l.WellFormed)
    (stops : l.StopsAt behind) : lexemes (l.text ++ behind) = l :: lexemes behind := by
  obtain ⟨c, rest, split⟩ := List.exists_cons_of_ne_nil
    (List.append_ne_nil_of_left_ne_nil formed.text_ne_nil behind)
  rw [split, lexemes, Lexeme.cut_of_stops formed stops split]

/-- Parted lexemes are found again in the text that they make up. -/
theorem Parted.lexemes_flatMap_text {ls : List Lexeme} (parted : Parted ls) :
    lexemes (ls.flatMap Lexeme.text) = ls := by
  induction ls with
  | nil => simp [lexemes]
  | cons l ls ih =>
    obtain ⟨formed, stops, later⟩ := parted
    rw [List.flatMap_cons, lexemes_append_of_stops formed stops, ih later]

/-! ## What is found in a row -/

theorem map_lexeme_place (p : Position) (ls : List Lexeme) :
    (place p ls).map Placed.lexeme = ls := by
  induction ls generalizing p with
  | nil => rfl
  | cons x ls ih => rw [place, List.map_cons, ih]

theorem wellFormed_of_mem_placedLexemes {source : String} {x : Placed}
    (placed : x ∈ placedLexemes source.toList) : x.lexeme.WellFormed := by
  apply (parted_lexemes source.toList).wellFormed
  rw [← map_lexeme_place .start (lexemes source.toList)]
  exact List.mem_map_of_mem placed

/-- A token is that of a lexeme, or stands at the end. -/
theorem scan_token_cases {source : String} {t : Token} (member : t ∈ (scan source).tokens) :
    (∃ p l, l.WellFormed ∧ Placed.token? ⟨p, l⟩ = some t) ∨
      t = endToken (Position.start.after source.toList) := by
  rcases List.mem_append.mp member with inner | last
  · obtain ⟨⟨p, l⟩, placed, found⟩ := List.mem_filterMap.mp inner
    exact .inl ⟨p, l, wellFormed_of_mem_placedLexemes placed, found⟩
  · exact .inr (List.mem_singleton.mp last)

/-- A fault is that of a lexeme. -/
theorem scan_fault_cases {source : String} {f : ScanFault} (member : f ∈ (scan source).faults) :
    ∃ p l, l.WellFormed ∧ Placed.fault? ⟨p, l⟩ = some f := by
  obtain ⟨⟨p, l⟩, placed, found⟩ := List.mem_filterMap.mp member
  exact ⟨p, l, wellFormed_of_mem_placedLexemes placed, found⟩

end SqlConsole
