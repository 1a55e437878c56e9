import Mathlib.Data.List.Forall2
import SqlConsole.Proofs.Lexeme.Stopping
import SqlConsole.Proofs.Scan.Joining

/-! Writing blanks over what a scan passes over: comments that end, and characters with which no
lexeme begins. Every lexeme next to them stops at a blank as well as it stopped before, so the
same tokens are found at the same places, and of the faults only the open ends are left. -/
namespace SqlConsole

/-- A blank in place of a character. Line ends stay. -/
def erase (c : Char) : Char := if c = '\n' then '\n' else ' '

namespace Lexeme

/-- Comments that end, and characters with which no lexeme begins. -/
def isPassedOver : Lexeme → Bool
  | lineComment _ | blockComment _ | stray _ => true
  | _ => false

/-- What is cut where the lexeme stood. -/
def erased (l : Lexeme) : List Lexeme :=
  if l.isPassedOver then l.text.map fun c => blank (erase c) else [l]

end Lexeme

/-- The text with every character of what is passed over erased. -/
def blankOut (text : List Char) : List Char :=
  (lexemes text).flatMap fun l => if l.isPassedOver then l.text.map erase else l.text

theorem flatMap_text_erased (l : Lexeme) :
    l.erased.flatMap Lexeme.text = if l.isPassedOver then l.text.map erase else l.text := by
  unfold Lexeme.erased
  split
  · rw [List.flatMap_map]
    exact (List.map_eq_flatMap ..).symm
  · exact List.flatMap_singleton ..

theorem blankOut_eq (text : List Char) :
    blankOut text = ((lexemes text).flatMap Lexeme.erased).flatMap Lexeme.text := by
  rw [List.flatMap_assoc, blankOut]
  exact congrArg (fun f => (lexemes text).flatMap f) (funext fun l => (flatMap_text_erased l).symm)

/-! ## Stopping at a blank -/

/-- The same character, or a blank written over it. -/
def Dimmed (c d : Char) : Prop := d = c ∨ d = ' '

theorem dimmed_erase (c : Char) : Dimmed c (erase c) := by
  unfold erase
  split
  next newline => exact .inl newline.symm
  next => exact .inr rfl

theorem dimmed_erased (ls : List Lexeme) : List.Forall₂ Dimmed (ls.flatMap Lexeme.text)
    ((ls.flatMap Lexeme.erased).flatMap Lexeme.text) := by
  induction ls with
  | nil => exact .nil
  | cons l ls ih =>
    rw [List.flatMap_cons, List.flatMap_cons, List.flatMap_append, flatMap_text_erased]
    refine List.rel_append ?_ ih
    split
    · exact List.forall₂_map_right_iff.mpr (List.forall₂_same.mpr fun c _ => dimmed_erase c)
    · exact List.forall₂_same.mpr fun c _ => .inl rfl

theorem Dimmed.noFurther {c d : Char} (dimmed : Dimmed c d) : Lexeme.NoFurther c d := by
  rcases dimmed with rfl | rfl
  · exact .refl d
  · exact ⟨fun _ => rfl, fun _ => rfl, fun _ _ => Lexeme.notMem_pairs_space _, nofun⟩

/-- Whatever stops a lexeme, a blank in its place does so too. A line comment alone stops at
nothing but its line end; it is passed over itself. -/
theorem Lexeme.StopsAt.dimmed {l : Lexeme} {behind behind' : List Char}
    (kept : l.isPassedOver = false) (stops : l.StopsAt behind)
    (dimmed : List.Forall₂ Dimmed behind behind') : l.StopsAt behind' := by
  refine stops.of_stopsAsSoon (stopsAsSoon_of_forall₂ (dimmed.imp fun _ _ => Dimmed.noFurther)) ?_
  rintro body rfl
  cases kept

theorem isBlank_erase (c : Char) : isBlank (erase c) = true := by
  unfold erase; split <;> rfl

theorem parted_blanks (text : List Char) {ls : List Lexeme} (parted : Parted ls) :
    Parted (text.map (fun c => Lexeme.blank (erase c)) ++ ls) := by
  induction text with
  | nil => exact parted
  | cons c text ih => exact ⟨isBlank_erase c, trivial, ih⟩

theorem Parted.erased {ls : List Lexeme} (parted : Parted ls) :
    Parted (ls.flatMap Lexeme.erased) := by
  induction ls with
  | nil => trivial
  | cons l ls ih =>
    obtain ⟨formed, stops, later⟩ := parted
    rw [List.flatMap_cons, Lexeme.erased]
    split
    · exact parted_blanks l.text (ih later)
    next kept => exact ⟨formed, stops.dimmed (by simpa using kept) (dimmed_erased ls), ih later⟩

theorem lexemes_blankOut (text : List Char) :
    lexemes (blankOut text) = (lexemes text).flatMap Lexeme.erased := by
  rw [blankOut_eq, (parted_lexemes text).erased.lexemes_flatMap_text]

/-! ## Places and what is found there -/

theorem Position.after_erase (p : Position) (text : List Char) :
    p.after (text.map erase) = p.after text := by
  refine p.after_map (fun c => ?_) text
  by_cases newline : c = '\n' <;> simp [erase, newline]

theorem Position.after_erased (p : Position) (l : Lexeme) :
    p.after (l.erased.flatMap Lexeme.text) = p.after l.text := by
  rw [flatMap_text_erased]
  split
  · exact p.after_erase l.text
  · rfl

theorem Position.after_blankOut (p : Position) (text : List Char) :
    p.after (blankOut text) = p.after text := by
  have row (ls : List Lexeme) : p.after ((ls.flatMap Lexeme.erased).flatMap Lexeme.text) =
      p.after (ls.flatMap Lexeme.text) := by
    induction ls generalizing p with
    | nil => rfl
    | cons l ls ih => simp only [List.flatMap_cons, List.flatMap_append, after_append,
        after_erased, ih]
  rw [blankOut_eq, row, flatMap_text_lexemes]

section Found

variable {α : Type} {found : Placed → Option α}
variable (blanks : ∀ p c, found ⟨p, .blank c⟩ = none)

include blanks

theorem filterMap_place_blanks (p : Position) (text : List Char) :
    (place p (text.map fun c => Lexeme.blank (erase c))).filterMap found = [] := by
  induction text generalizing p with
  | nil => rfl
  | cons c text ih => rw [List.map_cons, place, List.filterMap_cons_none (blanks ..), ih]

/-- What blanks do not give is found where it was, except in what has been erased. -/
theorem filterMap_place_erased (p : Position) (ls : List Lexeme) :
    (place p (ls.flatMap Lexeme.erased)).filterMap found =
      (place p ls).filterMap fun x => if x.lexeme.isPassedOver then none else found x := by
  refine filterMap_place_flatMap (fun l _ p => p.after_erased l) (fun l _ p => ?_) p
  rw [Lexeme.erased]
  by_cases passed : l.isPassedOver = true
  · rw [if_pos passed, filterMap_place_blanks blanks]
    simp [passed]
  · rw [if_neg passed]
    cases here : found ⟨p, l⟩ <;> simp [place, passed, here]

end Found

/-- The string or the comment that the fault tells of is never closed. -/
def ScanFault.isOpenEnd (f : ScanFault) : Bool :=
  f.cause = .unterminatedString || f.cause = .unterminatedComment

theorem Placed.token?_kept (x : Placed) :
    (if x.lexeme.isPassedOver then none else x.token?) = x.token? := by
  rcases x with ⟨p, l⟩
  cases l <;> rfl

/-- The faults that are told of lexemes that are not passed over are those of open ends. -/
theorem Placed.fault?_kept (x : Placed) :
    (if x.lexeme.isPassedOver then none else x.fault?) = x.fault?.filter ScanFault.isOpenEnd := by
  rcases x with ⟨p, l⟩
  cases l with
  | stray c =>
    change none = Option.filter ScanFault.isOpenEnd (some ⟨if c = '!' then _ else _, p⟩)
    split <;> rfl
  | _ => rfl

/-- Comments that end and characters that begin no lexeme are as good as blanks: with blanks in
their place a scan gives the same tokens at the same places, the end token included, and of the
faults exactly those of strings and comments that are never closed. -/
theorem scan_blankOut (source : String) :
    (scan (String.ofList (blankOut source.toList))).tokens = (scan source).tokens ∧
    (scan (String.ofList (blankOut source.toList))).faults =
      (scan source).faults.filter ScanFault.isOpenEnd := by
  simp only [scan, placedLexemes, String.toList_ofList, lexemes_blankOut]
  constructor
  · rw [filterMap_place_erased fun _ _ => rfl, Position.after_blankOut]
    congr 2
    exact funext Placed.token?_kept
  · rw [filterMap_place_erased fun _ _ => rfl, List.filter_filterMap]
    exact congrArg (fun f => List.filterMap f _) (funext Placed.fault?_kept)

/-- A comment between a numeral and its point, or between two signs, keeps them apart. -/
example : blankOut "3./*\n*/5 <!=!".toList = "3.  \n  5 <!= ".toList := by decide +kernel

end SqlConsole
