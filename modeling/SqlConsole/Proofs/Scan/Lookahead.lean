import SqlConsole.Proofs.Lexeme.Stopping
import SqlConsole.Proofs.Scan.Cursor
import SqlConsole.Proofs.Scan.Heads

/-! How far a scan looks ahead. A lexeme stops by at most two characters behind it, so two texts
that begin alike are scanned alike up to two characters in front of where they part. What a scan
has done is told by its states at the head of the loop over the lexemes. -/
namespace SqlConsole

/-- What a scan has done when it is at the head of its loop. -/
structure Head where
  /-- How many characters have been taken. -/
  cursor : Nat
  position : Position
  tokens : List Token
  faults : List ScanFault
  deriving DecidableEq, Repr

namespace Head

def start : Head := ⟨0, .start, [], []⟩

def step (h : Head) (l : Lexeme) : Head where
  cursor := h.cursor + l.text.length
  position := h.position.after l.text
  tokens := h.tokens ++ (Placed.token? ⟨h.position, l⟩).toList
  faults := h.faults ++ (Placed.fault? ⟨h.position, l⟩).toList

end Head

namespace Scanner

variable {s : Scanner} {c : Char} {text : List Char}

def head (s : Scanner) : Head := ⟨s.cursor, s.position, s.tokens, s.faults⟩

/-- Reading a lexeme takes the scanner where the lexeme takes the scan. -/
theorem head_scanToken (ahead : s.rest = c :: text) :
    s.scanToken.head = s.head.step (Lexeme.cut c text).1 := by
  rw [scanToken_eq ahead]
  rfl

/-- At the head of its loop the scanner has done what the lexemes behind it give. -/
theorem map_head_heads (s : Scanner) :
    s.heads.map head = (lexemes s.rest).scanl Head.step s.head := by
  fun_induction heads s with
  | case1 s done =>
    rw [atEnd_iff.mp done, lexemes]
    rfl
  | case2 s more ih =>
    obtain ⟨c, text, ahead⟩ := List.exists_cons_of_ne_nil (mt atEnd_iff.mpr more)
    rw [List.map_cons, ih, rest_scanToken ahead, head_scanToken ahead, ahead, lexemes,
      List.scanl_cons]

end Scanner

/-- What the scan of a text has done each time that it was at the head of its loop, as its recording
shows. -/
def heads (source : String) : List Head :=
  (Recorder.new source).scanTokens.heads.map Scanner.head

theorem heads_eq_scanl (source : String) :
    heads source = (lexemes source.toList).scanl Head.step .start := by
  have recorded := (Recorder.new source).heads_scanTokens
  rw [heads, recorded]
  exact (Scanner.new source).map_head_heads

/-- The states of a run from one state on are never behind it. -/
theorem le_cursor {h x : Head} {ls : List Lexeme} (member : x ∈ ls.scanl Head.step h) :
    h.cursor ≤ x.cursor := by
  induction ls generalizing h with
  | nil =>
    rw [List.scanl_nil, List.mem_singleton] at member
    rw [member]
  | cons l ls ih =>
    rw [List.scanl_cons] at member
    rcases List.mem_cons.mp member with rfl | later
    · exact Nat.le_refl _
    · exact Nat.le_trans (Nat.le_add_right _ _) (ih later)

/-- If the next lexeme ends too late, a run shows at most the state in front of it. -/
theorem filter_scanl_overrun {h : Head} {ahead : Nat} {ls : List Lexeme}
    (tooLate : ∀ l ∈ ls.head?, ahead < l.text.length + 2) :
    (ls.scanl Head.step h).filter (fun x => x.cursor + 2 ≤ h.cursor + ahead) =
      [h].filter (fun x => x.cursor + 2 ≤ h.cursor + ahead) := by
  cases ls with
  | nil => rfl
  | cons l ls =>
    have late : (ls.scanl Head.step (h.step l)).filter
        (fun x => x.cursor + 2 ≤ h.cursor + ahead) = [] := by
      refine List.filter_eq_nil_iff.mpr fun x member => ?_
      have behind : h.cursor + l.text.length ≤ x.cursor := le_cursor member
      have ending := tooLate l rfl
      simp only [decide_eq_true_eq]
      omega
    rw [List.scanl_cons, List.filter_cons, late, List.filter_singleton]
    exact (Bool.cond_eq_ite ..).symm

theorem take_two {ahead : List Char} (two : 2 ≤ ahead.length) (behind behind' : List Char) :
    (ahead ++ behind').head? = (ahead ++ behind).head? ∧
      (ahead ++ behind').tail.head? = (ahead ++ behind).tail.head? := by
  rcases ahead with _ | ⟨a, _ | ⟨b, ahead⟩⟩
  · simp at two
  · simp at two
  · exact ⟨rfl, rfl⟩

section Agreement

variable {common more more' : List Char}

/-- A lexeme that ends two characters in front of where the texts part is cut from both. -/
theorem lexemes_agree (more' : List Char) {l : Lexeme} {ls : List Lexeme}
    (parted : Parted (l :: ls)) (split : (l :: ls).flatMap Lexeme.text = common ++ more)
    (settled : l.text.length + 2 ≤ common.length) : ∃ ahead, common = l.text ++ ahead ∧
      ls.flatMap Lexeme.text = ahead ++ more ∧
      lexemes (common ++ more') = l :: lexemes (ahead ++ more') := by
  rw [List.flatMap_cons] at split
  have front : l.text <+: common :=
    List.prefix_of_prefix_length_le ⟨_, split⟩ (List.prefix_append common more) (by omega)
  obtain ⟨ahead, rfl⟩ := front
  rw [List.append_assoc] at split
  have behind := List.append_cancel_left split
  refine ⟨ahead, rfl, behind, ?_⟩
  have two : 2 ≤ ahead.length := by
    rw [List.length_append] at settled
    omega
  obtain ⟨first, second⟩ := take_two two more more'
  obtain ⟨formed, stops, _⟩ := parted
  rw [behind] at stops
  rw [List.append_assoc, lexemes_append_of_stops formed (stops.congr first second)]

/-- If no lexeme ends that early in the one text, none does in the other. -/
theorem overrun_agree {ls ls' : List Lexeme} (parted : Parted ls) (parted' : Parted ls')
    (split : ls.flatMap Lexeme.text = common ++ more)
    (split' : ls'.flatMap Lexeme.text = common ++ more')
    (tooLate : ∀ l ∈ ls.head?, common.length < l.text.length + 2) :
    ∀ l ∈ ls'.head?, common.length < l.text.length + 2 := by
  intro l first
  by_contra settled
  obtain ⟨later, rfl⟩ := List.head?_eq_some_iff.mp first
  obtain ⟨_, _, _, found⟩ := lexemes_agree more parted' split' (Nat.not_lt.mp settled)
  rw [← split, parted.lexemes_flatMap_text] at found
  exact settled (tooLate l (by rw [found]; rfl))

/-- From one state on, two texts that begin alike lead through the same states up to two
characters in front of where they part. -/
theorem filter_scanl_agree {ls ls' : List Lexeme} (parted : Parted ls) (parted' : Parted ls')
    (split : ls.flatMap Lexeme.text = common ++ more)
    (split' : ls'.flatMap Lexeme.text = common ++ more') (h : Head) :
    (ls.scanl Head.step h).filter (fun x => x.cursor + 2 ≤ h.cursor + common.length) =
      (ls'.scanl Head.step h).filter (fun x => x.cursor + 2 ≤ h.cursor + common.length) := by
  induction ls generalizing ls' common h with
  | nil =>
    have tooLate : ∀ l ∈ ([] : List Lexeme).head?, common.length < l.text.length + 2 := by
      rintro l ⟨⟩
    rw [filter_scanl_overrun tooLate,
      filter_scanl_overrun (overrun_agree parted parted' split split' tooLate)]
  | cons l ls ih =>
    by_cases settled : l.text.length + 2 ≤ common.length
    · obtain ⟨ahead, rfl, behind, found⟩ := lexemes_agree more' parted split settled
      obtain rfl : ls' = l :: lexemes (ahead ++ more') := by
        rw [← found, ← split', parted'.lexemes_flatMap_text]
      have later := ih parted.2.2 (parted_lexemes _) behind (flatMap_text_lexemes _) (h.step l)
      have bound : h.cursor + (l.text ++ ahead).length = (h.step l).cursor + ahead.length := by
        rw [List.length_append, ← Nat.add_assoc]
        rfl
      rw [bound, List.scanl_cons, List.scanl_cons, List.filter_cons, List.filter_cons, later]
    · have tooLate : ∀ m ∈ (l :: ls).head?, common.length < m.text.length + 2 := by
        rintro m ⟨⟩
        exact Nat.not_le.mp settled
      rw [filter_scanl_overrun tooLate,
        filter_scanl_overrun (overrun_agree parted parted' split split' tooLate)]

end Agreement

/-- Two texts that agree in their first `n` characters are scanned through the same states, of
place, tokens and faults alike, as long as at least two of these characters lie ahead. Nothing
that a lexeme gives which ends by then depends on a later character. -/
theorem heads_lookahead (source other : String) (n : Nat) (long : n ≤ source.length)
    (alike : source.toList.take n = other.toList.take n) :
    (heads source).filter (fun x => x.cursor + 2 ≤ n) =
      (heads other).filter (fun x => x.cursor + 2 ≤ n) := by
  have taken : (source.toList.take n).length = n := by
    rw [List.length_take, String.length_toList, Nat.min_eq_left long]
  have split : (lexemes source.toList).flatMap Lexeme.text =
      source.toList.take n ++ source.toList.drop n := by
    rw [flatMap_text_lexemes, List.take_append_drop]
  have split' : (lexemes other.toList).flatMap Lexeme.text =
      source.toList.take n ++ other.toList.drop n := by
    rw [flatMap_text_lexemes, alike, List.take_append_drop]
  have agree := filter_scanl_agree (parted_lexemes _) (parted_lexemes _) split split' .start
  rw [heads_eq_scanl, heads_eq_scanl]
  rwa [taken, show Head.start.cursor + n = n from Nat.zero_add n] at agree

/-- Behind a numeral both characters count: the point that the texts share does not tell
whether the numeral goes on. -/
theorem heads_lookahead_point : 4 ≤ "a 3.x".length ∧
    "a 3.x".toList.take 4 = "a 3.5".toList.take 4 ∧
    (heads "a 3.x").filter (fun x => x.cursor + 2 ≤ 4) =
      (heads "a 3.5").filter (fun x => x.cursor + 2 ≤ 4) ∧
    (heads "a 3.x").filter (fun x => x.cursor + 1 ≤ 4) ≠
      (heads "a 3.5").filter (fun x => x.cursor + 1 ≤ 4) := by
  have long : 4 ≤ "a 3.x".length := by decide +kernel
  have alike : "a 3.x".toList.take 4 = "a 3.5".toList.take 4 := by decide +kernel
  exact ⟨long, alike, heads_lookahead _ _ 4 long alike, by decide +kernel⟩

end SqlConsole
