import Mathlib.Data.List.Nodup
import SqlConsole.Proofs.Json.RoundTrip
import SqlConsole.Proofs.Output.FailingSink

/-! What a reader learns from the structured report of a scan: all that people see of tokens and
faults, in order. Reports of different scans are therefore different. -/
namespace SqlConsole

theorem TokenKind.mem_all (kind : TokenKind) : kind ∈ TokenKind.all := by
  cases kind with
  | keyword word => cases word <;> decide
  | operator sign => cases sign <;> decide
  | delimiter sign => cases sign <;> decide
  | identifier | number | string | endOfText | unknown => decide

theorem TokenKind.name_injective {kind other : TokenKind} (same : kind.name = other.name) :
    kind = other := by
  have distinct : (TokenKind.all.map TokenKind.name).Nodup := by decide
  exact List.inj_on_of_nodup_map distinct kind.mem_all other.mem_all same

theorem Bytes.ofText_injective {s t : String} (same : Bytes.ofText s = Bytes.ofText t) : s = t := by
  have read := congrArg Bytes.toText? same
  rw [Bytes.toText?_ofText, Bytes.toText?_ofText] at read
  exact Option.some.inj read

theorem Bytes.ofText_append (s t : String) :
    Bytes.ofText (s ++ t) = Bytes.ofText s ++ Bytes.ofText t := by
  simp [Bytes.ofText]

namespace Report

open Json (Content)

/-! ## The content of a report -/

def positionContent (p : Position) : Content :=
  .object [("column", .number p.column), ("line", .number p.line), ("offset", .number p.offset)]

/-- A number too large to be one is left open. -/
def numberContent (x : Binary64) : Content := if x.isFinite then .number x.decimal else .null

def tokenContent (t : Token) : Content :=
  .object ((t.number.map fun x => ("number", numberContent x)).toList ++
    [("position", positionContent t.position), ("token_type", .string t.kind.name),
     ("value", .string t.value)])

def faultContent (f : ScanFault) : Content :=
  .object [("column", .number f.position.column), ("line", .number f.position.line),
    ("message", .string f.cause.message)]

def scanContent (output : ScanOutput) : Content :=
  .object [("errors", .array (output.faults.map faultContent)),
    ("tokens", .array (output.tokens.map tokenContent))]

theorem content_token (t : Token) : (token t).content = tokenContent t := by
  cases found : t.number <;>
    simp [token, tokenContent, found, position, positionContent, numberContent, Json.content,
      Json.memberContents]

theorem content_fault (f : ScanFault) : (fault f).content = faultContent f := by
  simp [fault, faultContent, Json.content, Json.memberContents]

theorem contents_map {α : Type} {form : α → Json} {said : α → Content}
    (content : ∀ x, (form x).content = said x) (items : List α) :
    Json.contents (items.map form) = items.map said := by
  induction items with
  | nil => rfl
  | cons x items ih => rw [List.map_cons, Json.contents, content, ih, List.map_cons]

theorem content_scan (output : ScanOutput) : (scan output).content = scanContent output := by
  simp only [scan, scanContent, Json.content, Json.memberContents, contents_map content_token,
    contents_map content_fault]

/-! ## Equal contents -/

/-- What a report shows of a token. -/
def shownToken (t : Token) : TokenKind × String × Position := (t.kind, t.value, t.position)

/-- What a report shows of a fault. -/
def shownFault (f : ScanFault) : Nat × Nat × String :=
  (f.position.line, f.position.column, f.cause.message)

theorem positionContent_injective {p q : Position} (same : positionContent p = positionContent q) :
    p = q := by
  obtain ⟨line, column, offset⟩ := p
  simp_all [positionContent]

theorem shownToken_eq {t u : Token} (same : tokenContent t = tokenContent u) :
    shownToken t = shownToken u := by
  obtain ⟨kind, value, position, number⟩ := t
  obtain ⟨kind', value', position', number'⟩ := u
  have members : positionContent position = positionContent position' ∧
      kind.name = kind'.name ∧ value = value' := by
    cases number <;> cases number' <;> simp_all [tokenContent]
  obtain ⟨place, name, rfl⟩ := members
  rw [shownToken, shownToken, positionContent_injective place, TokenKind.name_injective name]

theorem shownFault_eq {f g : ScanFault} (same : faultContent f = faultContent g) :
    shownFault f = shownFault g := by
  simp only [faultContent, Content.object.injEq, List.cons.injEq, Prod.mk.injEq, true_and,
    Content.number.injEq, Content.string.injEq, Nat.cast_inj, and_true] at same
  obtain ⟨column, line, message⟩ := same
  rw [shownFault, shownFault, column, line, message]

theorem map_eq_map_of_eq {α β γ : Type} {f : α → β} {g : α → γ}
    (kept : ∀ x y, f x = f y → g x = g y) {first second : List α}
    (same : first.map f = second.map f) : first.map g = second.map g := by
  induction first generalizing second with
  | nil => cases second with
    | nil => rfl
    | cons y second => cases same
  | cons x first ih => cases second with
    | nil => cases same
    | cons y second =>
      rw [List.map_cons, List.map_cons, List.cons.injEq] at same ⊢
      exact ⟨kept x y same.1, ih same.2⟩

theorem shown_eq {output other : ScanOutput} (same : scanContent output = scanContent other) :
    output.tokens.map shownToken = other.tokens.map shownToken ∧
      output.faults.map shownFault = other.faults.map shownFault := by
  simp only [scanContent, Content.object.injEq, List.cons.injEq, Prod.mk.injEq, true_and,
    Content.array.injEq, and_true] at same
  exact ⟨map_eq_map_of_eq (fun _ _ => shownToken_eq) same.2,
    map_eq_map_of_eq (fun _ _ => shownFault_eq) same.1⟩

/-! ## Reading a report -/

theorem document_read (output : ScanOutput) {gap : List Char}
    (white : ∀ c ∈ gap, Json.Reader.isWhite c = true) :
    Json.read? (document output ++ String.ofList gap) = some (scanContent output) := by
  rw [document, ← String.ofList_append, Json.read?_pretty _ white, content_scan]

theorem document_ends (output : ScanOutput) : (document output).toList.getLast? = some '\x7d' := by
  simp only [document, scan, Json.pretty, String.toList_ofList]
  rw [← List.cons_append, List.getLast?_concat]

end Report

/-- The structured report of a text is a document and a newline. A reader of the document or of
the whole report finds two lists: every token and fault of the scan in order, and each of them as
it is. So texts with one report have the same tokens and faults. -/
theorem structured_report_faithful (sql : String) :
    ∃ document : String,
      (tokenize .structured sql).output = Bytes.ofText (document ++ "\n") ∧
      document.toList.getLast? = some '\x7d' ∧
      Json.read? document = some (Report.scanContent (scan sql)) ∧
      Json.read? (document ++ "\n") = some (Report.scanContent (scan sql)) ∧
      ∀ other : String, (tokenize .structured other).output = (tokenize .structured sql).output →
        (scan other).tokens.map Report.shownToken = (scan sql).tokens.map Report.shownToken ∧
        (scan other).faults.map Report.shownFault = (scan sql).faults.map Report.shownFault := by
  have output (text : String) : (tokenize .structured text).output =
      Bytes.ofText (Report.document (scan text) ++ "\n") := by
    rw [output_tokenize_structured, Bytes.ofText_append]
  have read (text : String) :
      Json.read? (Report.document (scan text) ++ "\n") = some (Report.scanContent (scan text)) :=
    @Report.document_read (scan text) ['\n'] (List.forall_mem_singleton.mpr rfl)
  refine ⟨Report.document (scan sql), output sql, Report.document_ends (scan sql), ?_, read sql, ?_⟩
  · have alone := @Report.document_read (scan sql) [] (List.forall_mem_nil _)
    rwa [String.ofList_nil, String.append_empty] at alone
  · intro other same
    rw [output, output] at same
    have texts := Bytes.ofText_injective same
    have contents := (read other).symm.trans ((congrArg Json.read? texts).trans (read sql))
    exact Report.shown_eq (Option.some.inj contents)

/-- A tab and a space are told apart by no token. -/
theorem structured_report_faithful_blank :
    (tokenize .structured "a\tb").output = (tokenize .structured "a b").output ∧
      (scan "a\tb").tokens.map Report.shownToken = (scan "a b").tokens.map Report.shownToken := by
  have scans : scan "a\tb" = scan "a b" := by decide +kernel
  have same : (tokenize .structured "a\tb").output = (tokenize .structured "a b").output := by
    rw [tokenize, scans]
    rfl
  obtain ⟨-, -, -, -, -, told⟩ := structured_report_faithful "a b"
  exact ⟨same, (told "a\tb" same).1⟩

end SqlConsole
