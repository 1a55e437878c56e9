import SqlConsole.Lexeme.Cut
import SqlConsole.Proofs.Lexeme.Reading

/-! Where comments and strings end. The two readers of bodies find the first end there is, and
they find none exactly when there is none. The bodies of strings are the escaped texts, so what can
be done to every escaped text can be done to every body. -/
namespace SqlConsole

@[simp] theorem noCommentEnd_nil : NoCommentEnd [] := .nil

theorem noCommentEnd_cons {c : Char} {text : List Char} :
    NoCommentEnd (c :: text) ↔ ¬ (c = '*' ∧ text.head? = some '/') ∧ NoCommentEnd text := by
  cases text with
  | nil => simp [NoCommentEnd]
  | cons d rest => simp [NoCommentEnd, List.isChain_cons_cons]

theorem noCommentEnd_end (rest : List Char) : ¬ NoCommentEnd ('*' :: '/' :: rest) := by
  simp [noCommentEnd_cons]

namespace Lexeme

theorem commentBody_cons {c : Char} {rest : List Char}
    (inside : ¬ (c = '*' ∧ rest.head? = some '/')) :
    commentBody (c :: rest) = (commentBody rest).map fun (body, after) => (c :: body, after) := by
  rw [commentBody.eq_3]
  intro after star slash
  exact inside ⟨star, by rw [slash, List.head?_cons]⟩

theorem commentBody_eq_none_iff {text : List Char} :
    commentBody text = none ↔ NoCommentEnd text := by
  fun_induction commentBody text with
  | case1 => simp
  | case2 rest => simp [noCommentEnd_end]
  | case3 c rest goesOn ih =>
    have inside : ¬ (c = '*' ∧ rest.head? = some '/') := by
      rintro ⟨star, slash⟩
      obtain ⟨after, rfl⟩ := List.head?_eq_some_iff.mp slash
      exact goesOn after star rfl
    simp [ih, noCommentEnd_cons, inside]

theorem noCommentEnd_of_commentBody {text body after : List Char}
    (found : commentBody text = some (body, after)) : NoCommentEnd (body ++ ['*']) := by
  fun_induction commentBody text generalizing body after with
  | case1 => cases found
  | case2 rest => cases found; simp [noCommentEnd_cons]
  | case3 c rest goesOn ih =>
    obtain ⟨⟨inner, after⟩, found, eq⟩ := Option.map_eq_some_iff.mp found
    cases eq
    refine noCommentEnd_cons.mpr ⟨?_, ih found⟩
    rintro ⟨star, slash⟩
    rw [← commentBody_text found] at goesOn
    cases inner with
    | nil => simp at slash
    | cons d inner =>
      have : d = '/' := by simpa using slash
      exact goesOn _ star (by rw [this]; rfl)

theorem commentBody_of_noCommentEnd {body : List Char} (inside : NoCommentEnd (body ++ ['*']))
    (after : List Char) : commentBody (body ++ '*' :: '/' :: after) = some (body, after) := by
  induction body with
  | nil => rfl
  | cons c body ih =>
    obtain ⟨here, inside⟩ := noCommentEnd_cons.mp inside
    have head : (body ++ '*' :: '/' :: after).head? = (body ++ ['*']).head? := by
      cases body <;> rfl
    rw [List.cons_append, commentBody_cons (head ▸ here), ih inside]
    rfl

end Lexeme

@[simp] theorem Quote.char_ne_backslash (q : Quote) : q.char ≠ '\\' := by cases q <;> decide

theorem noClosingMark_nil {q : Quote} : NoClosingMark q [] := .singleton _

/-- What stands in front of a character matters only through being a backslash. -/
theorem noClosingMark_cons {q : Quote} {c : Char} {text : List Char} (ordinary : c ≠ q.char)
    (unescaped : ¬ (c = '\\' ∧ text.head? = some q.char)) :
    NoClosingMark q (c :: text) ↔ NoClosingMark q text := by
  cases text with
  | nil => simp [NoClosingMark, List.isChain_cons_cons, ordinary]
  | cons d rest =>
    have backslash : d = q.char → c ≠ '\\' := fun mark eq => unescaped ⟨eq, by simp [mark]⟩
    simp only [NoClosingMark, List.isChain_cons_cons, ordinary, false_imp_iff, true_and]
    refine and_congr_left fun _ => ?_
    exact ⟨fun h mark => absurd (h mark) (backslash mark),
      fun h mark => absurd (h mark) q.char_ne_backslash⟩

theorem noClosingMark_escaped {q : Quote} {text : List Char} :
    NoClosingMark q ('\\' :: q.char :: text) ↔ NoClosingMark q text := by
  simp [NoClosingMark, List.isChain_cons_cons, Ne.symm q.char_ne_backslash]

theorem not_noClosingMark_mark {q : Quote} {text : List Char} :
    ¬ NoClosingMark q (q.char :: text) := by
  simp [NoClosingMark, List.isChain_cons_cons]

namespace Quote

theorem escape_cons_of_ne {q : Quote} {c : Char} (ordinary : c ≠ q.char) (text : List Char) :
    q.escape (c :: text) = c :: q.escape text := by simp [escape, ordinary]

theorem escape_mark (q : Quote) (text : List Char) :
    q.escape (q.char :: text) = '\\' :: q.char :: q.escape text := by simp [escape]

/-- An escaped text never begins with a quote mark. -/
theorem head?_escape_ne (q : Quote) (text : List Char) : (q.escape text).head? ≠ some q.char := by
  cases text with
  | nil => simp [escape]
  | cons c text =>
    by_cases mark : c = q.char
    · simp [mark, escape_mark, Ne.symm q.char_ne_backslash]
    · simp [escape_cons_of_ne mark, mark]

theorem unescape_cons {q : Quote} {c : Char} {text : List Char}
    (unescaped : ¬ (c = '\\' ∧ text.head? = some q.char)) :
    q.unescape (c :: text) = c :: q.unescape text := by
  cases text with
  | nil => rfl
  | cons d rest =>
    have : ¬ (c = '\\' ∧ d = q.char) := fun ⟨backslash, mark⟩ =>
      unescaped ⟨backslash, by simp [mark]⟩
    simp [unescape, this]

theorem unescape_escaped (q : Quote) (text : List Char) :
    q.unescape ('\\' :: q.char :: text) = q.char :: q.unescape text := by simp [unescape]

theorem unescape_escape (q : Quote) (text : List Char) : q.unescape (q.escape text) = text := by
  induction text with
  | nil => rfl
  | cons c text ih =>
    by_cases mark : c = q.char
    · rw [mark, escape_mark, unescape_escaped, ih]
    · rw [escape_cons_of_ne mark, unescape_cons (fun h => q.head?_escape_ne text h.2), ih]

end Quote

namespace Lexeme

theorem quotedBody_mark (q : Quote) (rest : List Char) :
    quotedBody q (q.char :: rest) = some ([], rest) := by
  cases rest <;> simp [quotedBody]

theorem quotedBody_escaped (q : Quote) (rest : List Char) :
    quotedBody q ('\\' :: q.char :: rest) =
      (quotedBody q rest).map fun (body, after) => ('\\' :: q.char :: body, after) := by
  simp [quotedBody, Ne.symm q.char_ne_backslash]

theorem quotedBody_cons {q : Quote} {c : Char} {rest : List Char} (ordinary : c ≠ q.char)
    (unescaped : ¬ (c = '\\' ∧ rest.head? = some q.char)) :
    quotedBody q (c :: rest) =
      (quotedBody q rest).map fun (body, after) => (c :: body, after) := by
  cases rest with
  | nil => simp [quotedBody, ordinary]
  | cons d rest =>
    have : ¬ (c = '\\' ∧ d = q.char) := fun ⟨backslash, same⟩ =>
      unescaped ⟨backslash, by simp [same]⟩
    simp [quotedBody, ordinary, this]

/-- The ways in which a text can go on inside a string: it ends, a mark closes, a pair of a
backslash and a mark stands for the mark, any other character stands for itself. -/
theorem quoted_cases {q : Quote} {motive : List Char → Prop} (nil : motive [])
    (closing : ∀ rest, motive (q.char :: rest))
    (escaped : ∀ rest, motive rest → motive ('\\' :: q.char :: rest))
    (plain : ∀ c rest, c ≠ q.char → ¬ (c = '\\' ∧ rest.head? = some q.char) →
      motive rest → motive (c :: rest)) (text : List Char) : motive text := by
  fun_induction quotedBody q text with
  | case1 => exact nil
  | case2 => exact closing []
  | case3 c ordinary => exact plain c [] ordinary (by simp) nil
  | case4 d rest => exact closing _
  | case5 c d rest _ pair ih =>
    obtain ⟨rfl, rfl⟩ := pair
    exact escaped rest ih
  | case6 c d rest ordinary pair ih => exact plain c _ ordinary (by simpa using pair) ih

theorem quotedBody_eq_none_iff {q : Quote} {text : List Char} :
    quotedBody q text = none ↔ NoClosingMark q text := by
  induction text using quoted_cases (q := q) with
  | nil => simp [quotedBody, noClosingMark_nil]
  | closing rest => simp [quotedBody_mark, not_noClosingMark_mark]
  | escaped rest ih => simp [quotedBody_escaped, noClosingMark_escaped, ih]
  | plain c rest ordinary unescaped ih =>
    simp [quotedBody_cons ordinary unescaped, noClosingMark_cons ordinary unescaped, ih]

/-- A body that is found has no closing mark in it and no backslash at its end. -/
theorem noClosingMark_of_quotedBody {q : Quote} {text body after : List Char}
    (found : quotedBody q text = some (body, after)) :
    NoClosingMark q body ∧ body.getLast? ≠ some '\\' := by
  induction text using quoted_cases (q := q) generalizing body after with
  | nil => simp [quotedBody] at found
  | closing rest =>
    rw [quotedBody_mark] at found
    cases found
    simp [noClosingMark_nil]
  | escaped rest ih =>
    rw [quotedBody_escaped] at found
    obtain ⟨⟨inner, after⟩, found, eq⟩ := Option.map_eq_some_iff.mp found
    cases eq
    obtain ⟨inside, last⟩ := ih found
    refine ⟨noClosingMark_escaped.mpr inside, ?_⟩
    cases inner with
    | nil => simp
    | cons d inner => simpa using last
  | plain c rest ordinary unescaped ih =>
    rw [quotedBody_cons ordinary unescaped] at found
    obtain ⟨⟨inner, after⟩, found, eq⟩ := Option.map_eq_some_iff.mp found
    cases eq
    obtain ⟨inside, last⟩ := ih found
    rw [← quotedBody_text found] at unescaped
    cases inner with
    | nil =>
      have : c ≠ '\\' := by simpa using unescaped
      exact ⟨(noClosingMark_cons ordinary (by simp)).mpr inside, by simpa using this⟩
    | cons d inner =>
      have unescaped : ¬ (c = '\\' ∧ (d :: inner).head? = some q.char) := by simpa using unescaped
      exact ⟨(noClosingMark_cons ordinary unescaped).mpr inside, by simpa using last⟩

theorem quotedBody_of_noClosingMark {q : Quote} {body : List Char}
    (inside : NoClosingMark q body) (last : body.getLast? ≠ some '\\') (after : List Char) :
    quotedBody q (body ++ q.char :: after) = some (body, after) := by
  induction body using quoted_cases (q := q) with
  | nil => exact quotedBody_mark q after
  | closing rest => exact absurd inside not_noClosingMark_mark
  | escaped rest ih =>
    have last : rest.getLast? ≠ some '\\' := by
      cases rest with
      | nil => simp
      | cons d rest => simpa using last
    have found := ih (noClosingMark_escaped.mp inside) last
    rw [List.cons_append, List.cons_append, quotedBody_escaped, found]
    rfl
  | plain c rest ordinary unescaped ih =>
    have inside := (noClosingMark_cons ordinary unescaped).mp inside
    cases rest with
    | nil =>
      have : c ≠ '\\' := by simpa using last
      have unescaped : ¬ (c = '\\' ∧ (q.char :: after).head? = some q.char) := fun h => this h.1
      rw [List.singleton_append, quotedBody_cons ordinary unescaped, quotedBody_mark]
      rfl
    | cons d rest =>
      have found := ih inside (by simpa using last)
      rw [List.cons_append, quotedBody_cons ordinary (by simpa using unescaped), found]
      rfl

end Lexeme

/-- Inside a string, taking the backslashes in front of marks away can be undone. -/
theorem Quote.escape_unescape {q : Quote} {body : List Char} (inside : NoClosingMark q body) :
    q.escape (q.unescape body) = body := by
  induction body using Lexeme.quoted_cases (q := q) with
  | nil => rfl
  | closing rest => exact absurd inside not_noClosingMark_mark
  | escaped rest ih =>
    rw [unescape_escaped, escape_mark, ih (noClosingMark_escaped.mp inside)]
  | plain c rest ordinary unescaped ih =>
    rw [unescape_cons unescaped, escape_cons_of_ne ordinary,
      ih ((noClosingMark_cons ordinary unescaped).mp inside)]

/-! ## Escaped texts -/

theorem noClosingMark_escape (q : Quote) (text : List Char) : NoClosingMark q (q.escape text) := by
  induction text with
  | nil => exact noClosingMark_nil
  | cons c text ih =>
    by_cases mark : c = q.char
    · rw [mark, Quote.escape_mark, noClosingMark_escaped]
      exact ih
    · rw [Quote.escape_cons_of_ne mark,
        noClosingMark_cons mark fun pair => q.head?_escape_ne text pair.2]
      exact ih

namespace Quote

theorem escape_append (q : Quote) (first second : List Char) :
    q.escape (first ++ second) = q.escape first ++ q.escape second := by
  induction first with
  | nil => rfl
  | cons c first ih =>
    by_cases mark : c = q.char
    · rw [mark, List.cons_append, escape_mark, escape_mark, ih]
      rfl
    · rw [List.cons_append, escape_cons_of_ne mark, escape_cons_of_ne mark, ih]
      rfl

theorem escape_of_notMem {q : Quote} {text : List Char} (free : q.char ∉ text) :
    q.escape text = text := by
  induction text with
  | nil => rfl
  | cons c text ih =>
    obtain ⟨ordinary, free⟩ := List.ne_and_not_mem_of_not_mem_cons free
    rw [escape_cons_of_ne ordinary.symm, ih free]

theorem escape_ne_nil (q : Quote) (c : Char) (text : List Char) : q.escape (c :: text) ≠ [] := by
  unfold escape; split <;> exact List.cons_ne_nil _ _

theorem getLast?_escape (q : Quote) (text : List Char) :
    (q.escape text).getLast? = text.getLast? := by
  induction text with
  | nil => rfl
  | cons c text ih =>
    cases text with
    | nil => by_cases mark : c = q.char <;> simp [escape, mark]
    | cons d text =>
      have more := List.getLast?_cons_of_ne_nil (x := c) (q.escape_ne_nil d text)
      by_cases mark : c = q.char
      · rw [mark, escape_mark, List.getLast?_cons_cons, ← mark, more, ih, List.getLast?_cons_cons]
      · rw [escape_cons_of_ne mark, more, ih, List.getLast?_cons_cons]

theorem getLast?_unescape {q : Quote} {body : List Char} (inside : NoClosingMark q body) :
    (q.unescape body).getLast? = body.getLast? := by
  rw [← q.getLast?_escape, escape_unescape inside]

/-- It makes no difference whether the text or the escaped text is changed. -/
def Commutes (q : Quote) (change : List Char → List Char) : Prop :=
  ∀ text, q.escape (change text) = change (q.escape text)

/-- Marks and backslashes are kept, and no other character gives a mark. -/
theorem commutes_flatMap {q : Quote} {f : Char → List Char} (mark : f q.char = [q.char])
    (backslash : f '\\' = ['\\']) (others : ∀ c, c ≠ q.char → q.char ∉ f c) :
    q.Commutes (List.flatMap f) := by
  intro text
  induction text with
  | nil => rfl
  | cons c text ih =>
    rw [List.flatMap_cons, escape_append, ih]
    by_cases same : c = q.char
    · rw [same, mark, escape_mark, escape_mark, List.flatMap_cons, List.flatMap_cons, mark,
        backslash]
      rfl
    · rw [escape_of_notMem (others c same), escape_cons_of_ne same, List.flatMap_cons]

namespace Commutes

variable {q : Quote} {change : List Char → List Char} {body : List Char}

theorem noClosingMark (commutes : q.Commutes change) (inside : NoClosingMark q body) :
    NoClosingMark q (change body) := by
  rw [← escape_unescape inside, ← commutes]
  exact noClosingMark_escape q _

theorem unescape (commutes : q.Commutes change) (inside : NoClosingMark q body) :
    q.unescape (change body) = change (q.unescape body) := by
  conv_lhs => rw [← escape_unescape inside, ← commutes]
  exact q.unescape_escape _

end Commutes

end Quote

end SqlConsole
