import SqlConsole.Proofs.Binary64.ReadBack
import SqlConsole.Proofs.Report.Decoding
import SqlConsole.Proofs.Scan.Numbers

/-! Numbers in the structured report. The number of a token is written so that a reader who rounds
correctly has it again. A numeral that is too large to be a finite double has no such form: its
entry keeps the place of the number and leaves it open. -/
namespace SqlConsole

def Binary64.infinity : Binary64 := ⟨infinityBits.toUInt64⟩

/-- What an object says under a key. -/
def Json.Content.member? (key : String) : Content → Option Content
  | object members => members.lookup key
  | _ => none

namespace Report

open Json (Content)

/-- The entry has a number if and only if the token is a numeral, and the double nearest to it is
the token's. -/
def NumberCarried (t : Token) (entry : Content) : Prop :=
  ((entry.member? "number").isSome = true ↔ t.kind = .number) ∧
    ∀ content, entry.member? "number" = some content →
      ∃ value x, content = .number value ∧ t.number = some x ∧
        ∀ y, Binary64.IsNearest value y ↔ y = x

theorem member?_number (t : Token) :
    (tokenContent t).member? "number" = t.number.map numberContent := by
  cases number : t.number <;> simp [tokenContent, Content.member?, number, List.lookup_cons]

theorem eq_infinity {q : ℚ} {x : Binary64} (nearest : Binary64.IsNearest q x)
    (infinite : x.isFinite = false) : x = .infinity := by
  obtain ⟨same, positive⟩ := Binary64.magnitude_toUInt64 (Nat.le_refl Binary64.infinityBits)
  apply Binary64.eq_of_magnitude nearest.positive positive
  have bound := nearest.number
  simp only [Binary64.isFinite, decide_eq_false_iff_not] at infinite
  omega

theorem numberCarried_tokenContent {t : Token} (carries : t.CarriesNearest)
    (finite : t.number ≠ some .infinity) : NumberCarried t (tokenContent t) := by
  rw [NumberCarried, member?_number, Option.isSome_map]
  refine ⟨carries.1, fun content found => ?_⟩
  obtain ⟨x, number, rfl⟩ := Option.map_eq_some_iff.mp found
  have nearest := (carries.2 x number).2
  have bounded : x.isFinite = true := by
    by_contra infinite
    rw [Bool.not_eq_true] at infinite
    exact finite (number.trans (congrArg some (eq_infinity nearest infinite)))
  have own := Binary64.isNearest_decimal nearest.positive bounded
  refine ⟨x.decimal, x, if_pos bounded, number, fun y => ⟨fun other => other.unique own, ?_⟩⟩
  rintro rfl
  exact own

theorem member?_of_infinity {t : Token} (number : t.number = some .infinity) :
    (tokenContent t).member? "number" = some .null := by
  have infinite : Binary64.infinity.isFinite = false := by decide
  rw [member?_number, number, Option.map_some, numberContent, infinite]
  rfl

/-- The report of a text is one document, in which the tokens have these entries. -/
def HasEntries (sql : String) (entries : List Content) : Prop :=
  ∃ document errors, (tokenize .structured sql).output = Bytes.ofText (document ++ "\n") ∧
    Json.read? (document ++ "\n") =
      some (.object [("errors", errors), ("tokens", .array entries)])

theorem hasEntries_iff {sql : String} {entries : List Content} :
    HasEntries sql entries ↔ entries = (SqlConsole.scan sql).tokens.map tokenContent := by
  generalize source : SqlConsole.scan sql = output
  have whole : (tokenize .structured sql).output = Bytes.ofText (document output ++ "\n") := by
    rw [output_tokenize_structured, Bytes.ofText_append, source]
  have read : Json.read? (document output ++ "\n") = some (scanContent output) :=
    @document_read output ['\n'] (List.forall_mem_singleton.mpr rfl)
  constructor
  · rintro ⟨other, errors, written, found⟩
    rw [← Bytes.ofText_injective (whole.symm.trans written), read] at found
    simp only [scanContent, Option.some.injEq, Content.object.injEq, List.cons.injEq,
      Prod.mk.injEq, Content.array.injEq, true_and, and_true] at found
    exact found.2.symm
  · rintro rfl
    exact ⟨_, _, whole, read⟩

end Report

/-- In the structured report of a text the entry of a token has a number if and only if the token is
a numeral, and the double nearest to that number is the token's own, except that an infinite one is
left open. -/
theorem structured_report_numbers (sql : String) :
    ∃ entries, Report.HasEntries sql entries ∧
      List.Forall₂ (fun t entry =>
        (t.number ≠ some .infinity → Report.NumberCarried t entry) ∧
        (t.number = some .infinity →
          t.kind = .number ∧ entry.member? "number" = some .null)) (scan sql).tokens entries := by
  refine ⟨_, Report.hasEntries_iff.mpr rfl, ?_⟩
  rw [List.forall₂_map_right_iff, List.forall₂_same]
  intro t member
  have carries := scan_carriesNearest member
  refine ⟨Report.numberCarried_tokenContent carries, fun infinite => ⟨?_, ?_⟩⟩
  · exact carries.1.mp (by rw [infinite]; rfl)
  · exact Report.member?_of_infinity infinite

/-- A one with three hundred and nine zeros. -/
def largeNumeral : List Char := '1' :: List.replicate 309 '0'

theorem scan_largeNumeral :
    ⟨.number, String.ofList largeNumeral, .start, some .infinity⟩ ∈
      (scan (String.ofList largeNumeral)).tokens := by
  have valid : Digits largeNumeral :=
    ⟨List.cons_ne_nil _ _, List.forall_mem_cons.mpr ⟨rfl, Json.Reader.isDigit_zeros⟩⟩
  have alone : Parted [.whole largeNumeral] := ⟨valid, ⟨nofun, nofun⟩, trivial⟩
  have row : lexemes largeNumeral = [.whole largeNumeral] := by
    simpa [Lexeme.text] using alone.lexemes_flatMap_text
  have infinite : Binary64.ofNumeral largeNumeral [] = .infinity := by decide +kernel
  rw [scan, placedLexemes, String.toList_ofList, row, ← infinite]
  exact List.mem_cons_self

/-- A numeral that is too large has an entry without its number. -/
theorem structured_report_leaves_open :
    ¬ ∃ entries, Report.HasEntries (String.ofList largeNumeral) entries ∧
      List.Forall₂ Report.NumberCarried (scan (String.ofList largeNumeral)).tokens entries := by
  rintro ⟨entries, read, carried⟩
  rw [Report.hasEntries_iff.mp read, List.forall₂_map_right_iff, List.forall₂_same] at carried
  obtain ⟨value, x, found, -⟩ :=
    (carried _ scan_largeNumeral).2 _ (Report.member?_of_infinity rfl)
  cases found

end SqlConsole
