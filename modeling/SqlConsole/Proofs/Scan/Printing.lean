import SqlConsole.Proofs.Lexeme.Stopping
import SqlConsole.Proofs.Scan.Joining

/-! Writing tokens down and scanning them again. A token is written as its value, and a string
between single marks whichever marks it had; every lexeme written so stops at a blank, so the
tokens written with blanks between them are scanned as they were. -/
namespace SqlConsole

namespace Token

/-- The token as it can be written. In a string, a backslash goes in front of every mark. -/
def print (t : Token) : String :=
  if t.kind = .string then
    String.ofList (Quote.single.char ::
      (Quote.single.escape t.value.toList ++ [Quote.single.char]))
  else t.value

/-- What the token says, its place apart. -/
def content (t : Token) : TokenKind × String × Option Binary64 := (t.kind, t.value, t.number)

end Token

/-- The tokens in a row with one blank between any two. -/
def printed (tokens : List Token) : String := " ".intercalate (tokens.map Token.print)

namespace Lexeme

/-- The lexeme that the token of this one is written as, if it has a token. -/
def reprint? : Lexeme → Option Lexeme
  | quoted q body => some (quoted .single (Quote.single.escape (q.unescape body)))
  | whole digits => some (whole digits)
  | decimal first second => some (decimal first second)
  | word letters => some (word letters)
  | mark m => some (mark m)
  | _ => none

def content? (l : Lexeme) : Option (TokenKind × String × Option Binary64) :=
  (Placed.token? ⟨.start, l⟩).map Token.content

theorem content?_reprint (l : Lexeme) : l.reprint?.bind content? = l.content? := by
  cases l with
  | quoted q body =>
    change Option.map Token.content (some ⟨_, String.ofList (Quote.single.unescape _), _, _⟩) = _
    rw [Quote.unescape_escape]
    rfl
  | _ => rfl

variable {l written : Lexeme}

theorem WellFormed.reprint (formed : l.WellFormed) (found : l.reprint? = some written) :
    written.WellFormed := by
  cases l with
  | quoted q body =>
    cases found
    refine ⟨noClosingMark_escape .single _, ?_⟩
    rw [Quote.getLast?_escape, Quote.getLast?_unescape formed.1]
    exact formed.2
  | whole | decimal | word | mark => cases found; exact formed
  | _ => cases found

/-- No token goes on over a blank. -/
theorem stopsAt_space (found : l.reprint? = some written) (behind : List Char) :
    written.StopsAt (' ' :: behind) := by
  have space {p : Char → Prop} (here : p ' ') : ∀ c ∈ (' ' :: behind).head?, p c := by
    rintro c ⟨⟩
    exact here
  cases l with
  | quoted => cases found; trivial
  | whole => cases found; exact ⟨space rfl, nofun⟩
  | decimal => cases found; exact space rfl
  | word => cases found; exact space rfl
  | mark => cases found; exact fun c _ => space (notMem_pairs_space c)
  | _ => cases found

theorem stopsAt_end (found : l.reprint? = some written) : written.StopsAt [] := by
  cases l with
  | quoted => cases found; trivial
  | whole => cases found; exact ⟨nofun, nofun⟩
  | decimal | word => cases found; exact nofun
  | mark => cases found; exact fun _ _ => nofun
  | _ => cases found

/-- What is wrong with the lexeme, its place apart. -/
def cause? (l : Lexeme) : Option ScanCause := (Placed.fault? ⟨.start, l⟩).map ScanFault.cause

theorem cause?_reprint (l : Lexeme) : l.reprint?.bind cause? = none := by
  cases l <;> rfl

end Lexeme

theorem Placed.map_content_token? (x : Placed) :
    x.token?.map Token.content = x.lexeme.content? := by
  rcases x with ⟨p, l⟩
  cases l <;> rfl

theorem Placed.map_cause_fault? (x : Placed) :
    x.fault?.map ScanFault.cause = x.lexeme.cause? := by
  rcases x with ⟨p, l⟩
  cases l <;> rfl

theorem Placed.map_print_token? (x : Placed) :
    x.token?.map Token.print = x.lexeme.reprint?.map fun l => String.ofList l.text := by
  rcases x with ⟨p, l⟩
  cases l with
  | quoted q body =>
    change some (Token.print ⟨.string, String.ofList (q.unescape body), p, none⟩) = _
    rw [Token.print, if_pos rfl, String.toList_ofList]
    rfl
  | word letters =>
    have plain : wordKind (String.ofList letters) ≠ .string := by
      rcases wordKind_cases (String.ofList letters) with ⟨k, _, kind⟩ | ⟨_, kind⟩ <;> simp [kind]
    exact congrArg some (if_neg plain)
  | mark m => cases m <;> rfl
  | _ => rfl

/-! ## A row with blanks between -/

/-- The lexemes with a blank between any two. -/
def spaced (ls : List Lexeme) : List Lexeme := ls.intersperse (.blank ' ')

theorem spaced_cons_cons (l m : Lexeme) (ls : List Lexeme) :
    spaced (l :: m :: ls) = l :: .blank ' ' :: spaced (m :: ls) := List.intersperse_cons_cons

theorem flatMap_text_spaced (ls : List Lexeme) :
    (spaced ls).flatMap Lexeme.text = [' '].intercalate (ls.map Lexeme.text) := by
  induction ls with
  | nil => rfl
  | cons l ls ih =>
    cases ls with
    | nil => rfl
    | cons m ls =>
      rw [spaced_cons_cons, List.flatMap_cons, List.flatMap_cons, ih]
      simp [List.intercalate, Lexeme.text]

theorem parted_spaced {ls : List Lexeme} (formed : ∀ l ∈ ls, l.WellFormed)
    (space : ∀ l ∈ ls, ∀ behind, l.StopsAt (' ' :: behind)) (last : ∀ l ∈ ls, l.StopsAt []) :
    Parted (spaced ls) := by
  induction ls with
  | nil => trivial
  | cons l ls ih =>
    obtain ⟨formedHere, formedLater⟩ := List.forall_mem_cons.mp formed
    obtain ⟨spaceHere, spaceLater⟩ := List.forall_mem_cons.mp space
    obtain ⟨lastHere, lastLater⟩ := List.forall_mem_cons.mp last
    cases ls with
    | nil => exact ⟨formedHere, lastHere, trivial⟩
    | cons m ls =>
      rw [spaced_cons_cons]
      exact ⟨formedHere, spaceHere _, rfl, trivial, ih formedLater spaceLater lastLater⟩

theorem filterMap_spaced {found : Lexeme → Option α} (blank : found (.blank ' ') = none)
    (ls : List Lexeme) : (spaced ls).filterMap found = ls.filterMap found := by
  induction ls with
  | nil => rfl
  | cons l ls ih =>
    cases ls with
    | nil => rfl
    | cons m ls =>
      rw [spaced_cons_cons, List.filterMap_cons, List.filterMap_cons_none blank, ih,
        List.filterMap_cons (a := l)]

/-- What is found in placed lexemes does not depend on their places. -/
theorem filterMap_place {found : Placed → Option α} {found' : Lexeme → Option α}
    (same : ∀ x, found x = found' x.lexeme) (p : Position) (ls : List Lexeme) :
    (place p ls).filterMap found = ls.filterMap found' := by
  conv_rhs => rw [← map_lexeme_place p ls, List.filterMap_map]
  exact congrArg (fun f => List.filterMap f _) (funext same)

theorem scan_map_content (source : String) : (scan source).tokens.map Token.content =
    (lexemes source.toList).filterMap Lexeme.content? ++ [(.endOfText, "", none)] := by
  rw [scan, List.map_append, List.map_filterMap]
  congr 1
  exact filterMap_place Placed.map_content_token? _ _

theorem scan_map_cause (source : String) : (scan source).faults.map ScanFault.cause =
    (lexemes source.toList).filterMap Lexeme.cause? := by
  rw [scan, List.map_filterMap]
  exact filterMap_place Placed.map_cause_fault? _ _

/-- The lexemes that the tokens of a text are written as. -/
def reprinted (text : List Char) : List Lexeme := (lexemes text).filterMap Lexeme.reprint?

theorem printed_inner (source : String) : (printed (scan source).inner).toList =
    (spaced (reprinted source.toList)).flatMap Lexeme.text := by
  have tokens : (scan source).inner.map Token.print =
      (reprinted source.toList).map fun l => String.ofList l.text := by
    rw [scan_inner, reprinted, List.map_filterMap, List.map_filterMap]
    exact filterMap_place Placed.map_print_token? _ _
  rw [printed, tokens, String.toList_intercalate, flatMap_text_spaced, List.map_map]
  congr 2
  exact funext fun l => String.toList_ofList

theorem lexemes_printed (source : String) :
    lexemes (printed (scan source).inner).toList = spaced (reprinted source.toList) := by
  have written : ∀ l ∈ reprinted source.toList, ∃ m ∈ lexemes source.toList,
      m.reprint? = some l := fun l => List.mem_filterMap.mp
  have parted : Parted (spaced (reprinted source.toList)) := by
    refine parted_spaced (fun l member => ?_) (fun l member => ?_) (fun l member => ?_)
    all_goals obtain ⟨m, cut, found⟩ := written l member
    · exact ((parted_lexemes source.toList).wellFormed m cut).reprint found
    · exact Lexeme.stopsAt_space found
    · exact Lexeme.stopsAt_end found
  rw [printed_inner, parted.lexemes_flatMap_text]

/-- The tokens of a scan in front of the end token, written one after the other with single
blanks between them, are scanned without a fault, and they give the same kinds, values and
numbers in the same order, the end token last. -/
theorem scan_printed (source : String) :
    (scan (printed (scan source).inner)).faults = [] ∧
    (scan (printed (scan source).inner)).tokens.map Token.content =
      (scan source).tokens.map Token.content := by
  constructor
  · have causes := scan_map_cause (printed (scan source).inner)
    rw [lexemes_printed, filterMap_spaced rfl, reprinted, List.filterMap_filterMap,
      funext Lexeme.cause?_reprint, List.filterMap_none] at causes
    exact List.map_eq_nil_iff.mp causes
  · rw [scan_map_content, scan_map_content, lexemes_printed, filterMap_spaced rfl, reprinted,
      List.filterMap_filterMap]
    congr 2
    exact funext Lexeme.content?_reprint

end SqlConsole
