import SqlConsole.Proofs.Text.Runs
import SqlConsole.Proofs.Toml.Strings
import SqlConsole.Toml.Document

/-! Documents that are written line by line read back statement by statement. A header and an
entry each take their own line and nothing of the next one. -/
namespace SqlConsole

namespace Toml

open Reader

/-- The key can stand without quote marks. -/
structure BareKey (key : String) : Prop where
  nonempty : key.toList ≠ []
  bare : ∀ c ∈ key.toList, isBareKeyChar c = true

instance (key : String) : Decidable (BareKey key) :=
  decidable_of_iff (key.toList ≠ [] ∧ key.toList.all isBareKeyChar = true)
    ⟨fun ⟨nonempty, bare⟩ => ⟨nonempty, List.all_eq_true.mp bare⟩,
      fun ⟨nonempty, bare⟩ => ⟨nonempty, List.all_eq_true.mpr bare⟩⟩

/-! ## Keys -/

namespace BareKey

variable {key : String} (bareKey : BareKey key)

include bareKey

theorem exists_cons : ∃ c rest, key.toList = c :: rest ∧ isBareKeyChar c = true := by
  obtain ⟨c, rest, same⟩ := List.exists_cons_of_ne_nil bareKey.nonempty
  exact ⟨c, rest, same, bareKey.bare c (by rw [same]; exact List.mem_cons_self)⟩

/-- A bare key begins with none of the characters that mean something in front of a key. -/
theorem ne_cons {d : Char} (other : isBareKeyChar d = false) (behind more : List Char) :
    key.toList ++ behind ≠ d :: more := by
  obtain ⟨c, rest, same, bare⟩ := bareKey.exists_cons
  rw [same]
  intro equal
  rw [(List.cons_eq_cons.mp equal).1, other] at bare
  cases bare

theorem skipBlanks_eq (behind : List Char) :
    skipBlanks (key.toList ++ behind) = key.toList ++ behind := by
  obtain ⟨c, rest, same, bare⟩ := bareKey.exists_cons
  have ink : ¬ isBlankChar c = true := by
    simp only [isBlankChar, Bool.or_eq_true, decide_eq_true_eq]
    rintro (rfl | rfl) <;> revert bare <;> decide
  rw [same, skipBlanks, List.cons_append, List.dropWhile_cons_of_neg ink]

theorem keyPart?_eq {behind : List Char} (ends : ∀ c ∈ behind.head?, isBareKeyChar c = false) :
    keyPart? (key.toList ++ behind) = some (key, behind) := by
  obtain ⟨taken, left⟩ := takeWhile_of_stop bareKey.bare ends
  rw [keyPart?.eq_3 _ (fun _ => bareKey.ne_cons rfl _ _) (fun _ => bareKey.ne_cons rfl _ _), taken,
    left]
  split
  next none => exact absurd none bareKey.nonempty
  next => rw [String.ofList_toList]

/-- A key alone, up to the sign behind it. -/
theorem key?_eq {d e : Char} {behind more : List Char} (ends : isBareKeyChar d = false)
    (sign : skipBlanks (d :: behind) = e :: more) (alone : e ≠ '.') :
    key? (key.toList ++ d :: behind).length (key.toList ++ d :: behind) =
      some ([key], e :: more) := by
  have stops : ∀ c ∈ (d :: behind).head?, isBareKeyChar c = false := by
    rintro c ⟨⟩
    exact ends
  rw [List.length_append, List.length_cons, ← Nat.add_assoc, key?.eq_2, bareKey.skipBlanks_eq,
    bareKey.keyPart?_eq stops]
  simp only [Option.pure_def, Option.bind_eq_bind, Option.bind_some, sign]
  split
  next same => exact absurd (List.cons_eq_cons.mp same).1 alone
  next => rfl

end BareKey

/-! ## Values -/

/-- The value is read back from what is written, up to the end of the line. -/
structure Writes (written : List Char) (value : Value) : Prop where
  ink : ∃ c rest, written = c :: rest ∧ isBlankChar c = false
  read : ∀ fuel depth behind,
    value? (fuel + 1) depth (written ++ '\n' :: behind) = some (value, '\n' :: behind)

theorem Writes.skipBlanks_eq {written : List Char} {value : Value} (writes : Writes written value)
    (behind : List Char) : skipBlanks (' ' :: (written ++ behind)) = written ++ behind := by
  obtain ⟨c, rest, same, ink⟩ := writes.ink
  have blank : isBlankChar ' ' = true := rfl
  rw [same, skipBlanks, List.dropWhile_cons_of_pos blank, List.cons_append,
    List.dropWhile_cons_of_neg (by simp [ink])]

theorem string_cons (text : List Char) : ∃ rest, Writer.string text = '"' :: rest ∨
    Writer.string text = '\'' :: rest := by
  unfold Writer.string
  cases Writer.style text with
  | basic => exact ⟨_, .inl rfl⟩
  | literal => exact ⟨_, .inr rfl⟩
  | basicLines => exact ⟨_, .inl rfl⟩
  | literalLines => exact ⟨_, .inr rfl⟩

theorem writes_string (text : List Char) :
    Writes (Writer.string text) (.string (String.ofList text)) := by
  have read (behind : List Char) : Quoted.string? (Writer.string text ++ '\n' :: behind) =
      some (String.ofList text, '\n' :: behind) := string?_string text (by simp) (by simp)
  obtain ⟨rest, same⟩ := string_cons text
  rcases same with same | same
  all_goals
    rw [same] at read ⊢
    refine ⟨⟨_, rest, rfl, rfl⟩, fun fuel depth behind => ?_⟩
    have found := read behind
    rw [List.cons_append] at found ⊢
    simp only [value?, found]
    rfl

theorem writes_boolean (value : Bool) : Writes (Writer.boolean value) (.boolean value) := by
  cases value <;> exact ⟨⟨_, _, rfl, rfl⟩, fun _ _ _ => rfl⟩

/-! ## Lines -/

theorem statement?_header {key : String} (bareKey : BareKey key) (behind : List Char) :
    statement? (Writer.header key ++ behind) = some (.header [key], behind) := by
  have noRow : ∀ more, key.toList ++ ']' :: '\n' :: behind = '[' :: more → False :=
    fun _ => bareKey.ne_cons rfl _ _
  have found : key? _ (key.toList ++ ']' :: '\n' :: behind) = some ([key], ']' :: '\n' :: behind) :=
    bareKey.key?_eq rfl rfl (by decide)
  rw [Writer.header, List.cons_append, List.append_assoc]
  change statement? ('[' :: (key.toList ++ ']' :: '\n' :: behind)) = _
  rw [statement?.eq_2 _ noRow, found]
  rfl

theorem statement?_entry {key : String} (bareKey : BareKey key) {written : List Char}
    {value : Value} (writes : Writes written value) (behind : List Char) :
    statement? (Writer.entry key written ++ behind) = some (.entry [key] value, behind) := by
  have whole : Writer.entry key written ++ behind =
      key.toList ++ ' ' :: '=' :: ' ' :: (written ++ '\n' :: behind) := by
    simp [Writer.entry]
  have found : key? _ (key.toList ++ ' ' :: '=' :: ' ' :: (written ++ '\n' :: behind)) =
      some ([key], '=' :: ' ' :: (written ++ '\n' :: behind)) :=
    bareKey.key?_eq rfl rfl (by decide)
  rw [whole,
    statement?.eq_3 _ (fun _ => bareKey.ne_cons rfl _ _) (fun _ => bareKey.ne_cons rfl _ _), found]
  change ((value? _ 0 (skipBlanks (' ' :: (written ++ '\n' :: behind)))).bind _) = _
  rw [writes.skipBlanks_eq, writes.read]
  rfl

/-- The text is a line, perhaps with blank lines in front, and holds the statement. -/
def Holds (text : List Char) (statement : Statement) : Prop :=
  ∀ behind, ∃ c rest, skipFiller false (text ++ behind) = c :: rest ∧
    statement? (c :: rest) = some (statement, behind)

theorem holds_newline {text : List Char} {statement : Statement} (holds : Holds text statement) :
    Holds ('\n' :: text) statement := holds

theorem Holds.ne_nil {text : List Char} {statement : Statement} (holds : Holds text statement) :
    text ≠ [] := by
  rintro rfl
  obtain ⟨c, rest, start, _⟩ := holds []
  cases start

/-- The characters that are no filler in front of a statement. -/
def isInk (c : Char) : Bool := c ≠ '\n' && c ≠ '\r' && c ≠ '#' && !isBlankChar c

theorem skipFiller_ink {c : Char} (ink : isInk c = true) (rest : List Char) :
    skipFiller false (c :: rest) = c :: rest := by
  simp only [isInk, Bool.and_eq_true, decide_eq_true_eq, Bool.not_eq_eq_eq_not,
    Bool.not_true] at ink
  obtain ⟨⟨⟨newline, return_⟩, comment⟩, blank⟩ := ink
  rw [skipFiller.eq_3 _ _ _ fun _ same => absurd same return_]
  simp [newline, blank, comment]

theorem isInk_of_isBareKeyChar {c : Char} (bare : isBareKeyChar c = true) : isInk c = true := by
  simp only [isInk, isBlankChar, Bool.and_eq_true, decide_eq_true_eq, Bool.not_eq_eq_eq_not,
    Bool.not_true, Bool.or_eq_false_iff, decide_eq_false_iff_not]
  refine ⟨⟨⟨?_, ?_⟩, ?_⟩, ?_, ?_⟩ <;> rintro rfl <;> revert bare <;> decide

theorem holds_header {key : String} (bareKey : BareKey key) :
    Holds (Writer.header key) (.header [key]) := by
  intro behind
  have read := statement?_header bareKey behind
  exact ⟨'[', _, skipFiller_ink rfl _, read⟩

theorem holds_entry {key : String} (bareKey : BareKey key) {written : List Char} {value : Value}
    (writes : Writes written value) : Holds (Writer.entry key written) (.entry [key] value) := by
  intro behind
  have read := statement?_entry bareKey writes behind
  obtain ⟨c, rest, same, bare⟩ := bareKey.exists_cons
  have start : Writer.entry key written = c :: (rest ++ " = ".toList ++ written ++ ['\n']) := by
    simp [Writer.entry, same]
  rw [start] at read ⊢
  exact ⟨c, _, skipFiller_ink (isInk_of_isBareKeyChar bare) _, read⟩

/-! ## Documents -/

variable {lines : List (List Char × Statement)}

theorem statements?_flatMap (holds : ∀ line ∈ lines, Holds line.1 line.2) {limit : Nat}
    (enough : lines.length < limit) :
    statements? limit (lines.flatMap Prod.fst) = some (lines.map Prod.snd) := by
  induction lines generalizing limit with
  | nil =>
    obtain ⟨limit, rfl⟩ := Nat.exists_eq_succ_of_ne_zero (Nat.ne_of_gt enough)
    rfl
  | cons line lines ih =>
    obtain ⟨limit, rfl⟩ := Nat.exists_eq_succ_of_ne_zero (Nat.ne_of_gt (Nat.zero_lt_of_lt enough))
    obtain ⟨here, later⟩ := List.forall_mem_cons.mp holds
    obtain ⟨c, rest, start, read⟩ := here (lines.flatMap Prod.fst)
    rw [List.flatMap_cons, statements?.eq_2, start]
    change ((statement? (c :: rest)).bind _) = _
    rw [read]
    change ((statements? limit (lines.flatMap Prod.fst)).bind _) = _
    rw [ih later (Nat.lt_of_succ_lt_succ enough)]
    rfl

theorem length_le_flatMap (holds : ∀ line ∈ lines, Holds line.1 line.2) :
    lines.length ≤ (lines.flatMap Prod.fst).length := by
  induction lines with
  | nil => exact Nat.le_refl _
  | cons line lines ih =>
    obtain ⟨here, later⟩ := List.forall_mem_cons.mp holds
    have nonempty := List.length_pos_iff.mpr here.ne_nil
    have more := ih later
    rw [List.flatMap_cons, List.length_append, List.length_cons]
    omega

theorem read?_ofList {text : List Char} (noMark : text.head? ≠ some '\ufeff') :
    read? (String.ofList text) = (statements? (text.length + 1) text).bind fun statements =>
      (statements.foldlM Statement.step? ([], [])).map Prod.snd := by
  have after (result : Option (List String × Entries)) :
      (result.bind fun state => some state.2) = result.map Prod.snd := by cases result <;> rfl
  rw [read?, String.toList_ofList]
  dsimp only
  split
  next rest => exact absurd rfl noMark
  next => exact congrArg _ (funext fun statements => after _)

/-- A document is what its statements make of an empty one. -/
theorem read?_flatMap (holds : ∀ line ∈ lines, Holds line.1 line.2)
    (noMark : (lines.flatMap Prod.fst).head? ≠ some '\ufeff') :
    read? (String.ofList (lines.flatMap Prod.fst)) =
      ((lines.map Prod.snd).foldlM Statement.step? ([], [])).map Prod.snd := by
  have enough := Nat.lt_succ_of_le (length_le_flatMap holds)
  rw [read?_ofList noMark, statements?_flatMap holds enough]
  rfl

end Toml

end SqlConsole
