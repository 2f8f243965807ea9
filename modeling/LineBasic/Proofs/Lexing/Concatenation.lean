import LineBasic.Proofs.Lexing.Layout

/-! Lexemes of texts that are put one behind the other.

A text in front brings its own lexemes and leaves those behind it as they are, if
none of its lexemes is read on into what follows. A defect in the text in front
stays the first one, unless it is a string that may find its end behind. -/

namespace LineBasic

/-- Whether no lexeme is read on into the text. -/
def Detached (text : List Char) : Prop :=
  ∀ next ∈ text.head?, ∀ lexeme : Lexeme, lexeme.readsOn next = false

section

variable {lexemes : List Lexeme} {text rest tail : List Char}

theorem detached_of_isBlank {run : List Char} (nonempty : run ≠ [])
    (blank : ∀ character ∈ run, isBlank character = true) (text : List Char) :
    Detached (run ++ text) := by
  intro next member lexeme
  rw [List.head?_append_of_ne_nil run nonempty] at member
  exact lexeme.readsOn_of_isBlank (blank next (List.mem_of_mem_head? member))

/-- What stands apart from a text does so too if the text is longer. -/
theorem Detached.apart {lexeme : Lexeme} (detached : Detached tail)
    (apart : ∀ next ∈ text.head?, lexeme.readsOn next = false) :
    ∀ next ∈ (text ++ tail).head?, lexeme.readsOn next = false := by
  intro next member
  cases text with
  | nil => exact detached next member lexeme
  | cons first rest => exact apart next member

/-! ## In front of a tail -/

theorem Spelling.append {others : List Lexeme} {final : List Char}
    (spelling : Spelling lexemes text rest) (detached : Detached tail)
    (behind : Spelling others (rest ++ tail) final) :
    Spelling (lexemes ++ others) (text ++ tail) final := by
  induction spelling with
  | rest inked => exact behind
  | blank skipped front induction => exact .blank skipped (induction behind)
  | lexeme spelled apart front induction =>
      rw [List.append_assoc]
      exact .lexeme spelled (detached.apart apart) (induction behind)

theorem Spelling.exists_read (spelling : Spelling lexemes text rest) :
    ∃ read, text = read ++ rest ∧ ∀ other : List Char, other.head? = rest.head? →
      Spelling lexemes (read ++ other) other := by
  induction spelling with
  | rest inked => exact ⟨[], rfl, fun other same => .rest (same ▸ inked)⟩
  | @blank lexemes first text rest skipped behind induction =>
      rcases induction with ⟨read, rfl, others⟩
      exact ⟨first :: read, rfl, fun other same => .blank skipped (others other same)⟩
  | @lexeme first lexemes spelling text rest spelled apart behind induction =>
      rcases induction with ⟨read, rfl, others⟩
      refine ⟨spelling ++ read, (List.append_assoc ..).symm, ?_⟩
      intro other same
      have sameHead : (read ++ other).head? = (read ++ rest).head? := by
        rw [List.head?_append, List.head?_append, same]
      rw [List.append_assoc]
      exact .lexeme spelled (sameHead ▸ apart) (others other same)

/-- A spelling looks at no more of its rest than the first character. -/
theorem Spelling.of_head?_eq {read other : List Char}
    (spelling : Spelling lexemes (read ++ rest) rest)
    (same : other.head? = rest.head?) : Spelling lexemes (read ++ other) other := by
  rcases spelling.exists_read with ⟨before, whole, others⟩
  rw [List.append_cancel_right whole]
  exact others other same

theorem Defect.Heads.append {defect : Defect} {passed : List Char}
    (heads : defect.Heads passed rest) (closed : defect ≠ .unterminatedString)
    (detached : Detached tail) : defect.Heads passed (rest ++ tail) := by
  cases heads with
  | unexpectedCharacter inked unquoted noDigit noLetter noSymbol =>
      exact .unexpectedCharacter inked unquoted noDigit noLetter noSymbol
  | @integerOverflow digits rest decimal maximal large =>
      have ends : ∀ next ∈ rest.head?, (Lexeme.int 0).readsOn next = false := maximal
      exact .integerOverflow decimal (detached.apart ends) large
  | unterminatedString unquoted => exact absurd rfl closed

end

/-! ## Lexemes and errors -/

theorem exists_defect_of_lex_eq_error {source : String} {error : LexError}
    (failed : lex source = .error error) :
    ∃ lexemes read passed rest,
      source.toList = read ++ (passed ++ rest) ∧
        Spelling lexemes source.toList (passed ++ rest) ∧
        error.defect.Heads passed rest ∧ error.position = byteLength read := by
  rcases exists_spelling source.toList with ⟨lexemes, behind, spelling, ending⟩
  rcases ending with rfl | ⟨defect, passed, rest, rfl, heads⟩
  · rw [lex_eq_ok_iff_spelling.mpr ⟨lexemes, rfl, spelling⟩] at failed
    cases failed
  · rcases Cursor.tokenize_of_defect spelling heads with ⟨read, whole, -⟩
    rw [lex_eq_error_of_spelling whole spelling heads] at failed
    cases failed
    exact ⟨lexemes, read, passed, rest, whole, spelling, heads, rfl⟩

/-- A text that brings some lexemes to every spelling of its tail brings them to
the lexemes of the tail, and moves an error in the tail by its own length. -/
theorem lex_append_of_spelling {front tail : String} {lexemes : List Lexeme}
    (brings : ∀ {others final}, Spelling others tail.toList final →
      Spelling (lexemes ++ others) (front ++ tail).toList final) :
    (∀ behind, lex tail = .ok behind →
      lex (front ++ tail) = .ok (lexemes ++ behind)) ∧
    ∀ error, lex tail = .error error →
      lex (front ++ tail) = .error (error.shift front.utf8ByteSize) := by
  constructor
  · intro behind cut
    rcases lex_eq_ok_iff_spelling.mp cut with ⟨others, rfl, spelling⟩
    exact lex_eq_ok_iff_spelling.mpr
      ⟨lexemes ++ others, (List.append_assoc ..).symm, brings spelling⟩
  · intro error failed
    rcases exists_defect_of_lex_eq_error failed with
      ⟨others, read, passed, rest, whole, spelling, heads, position⟩
    have moved : (front ++ tail).toList =
        front.toList ++ read ++ (passed ++ rest) := by
      rw [String.toList_append, whole, List.append_assoc]
    rw [lex_eq_error_of_spelling moved (brings spelling) heads, LexError.shift,
      position, byteLength_append, byteLength_toList]

theorem lex_append_of_error {front tail : String} {error : LexError}
    (detached : Detached tail.toList) (failed : lex front = .error error)
    (closed : error.defect ≠ .unterminatedString) :
    lex (front ++ tail) = .error error := by
  rcases exists_defect_of_lex_eq_error failed with
    ⟨lexemes, read, passed, rest, whole, spelling, heads, position⟩
  have headsOn := heads.append closed detached
  have longer : (front ++ tail).toList =
      read ++ (passed ++ (rest ++ tail.toList)) := by
    rw [String.toList_append, whole]
    simp only [List.append_assoc]
  have finish : Spelling [] (passed ++ rest ++ tail.toList)
      (passed ++ (rest ++ tail.toList)) := by
    rw [List.append_assoc]
    exact .rest headsOn.inked
  have spelled := spelling.append detached finish
  rw [← String.toList_append] at spelled
  rw [lex_eq_error_of_spelling longer spelled headsOn, ← position]

/-- A text that is cut into lexemes moves an error behind it by its own length. -/
theorem lex_append_of_ok {front tail : String} {lexemes : List Lexeme}
    {error : LexError} (detached : Detached tail.toList)
    (cut : lex front = .ok lexemes) (failed : lex tail = .error error) :
    lex (front ++ tail) = .error (error.shift front.utf8ByteSize) := by
  rcases lex_eq_ok_iff_spelling.mp cut with ⟨spelled, rfl, spelling⟩
  have brings {others : List Lexeme} {final : List Char}
      (behind : Spelling others tail.toList final) :
      Spelling (spelled ++ others) (front ++ tail).toList final := by
    rw [String.toList_append]
    exact spelling.append detached behind
  exact (lex_append_of_spelling brings).2 error failed

/-- A string that is left open takes in all that follows, up to the next quote. -/
theorem lex_append_of_open {front tail : String} {position : Nat}
    (failed : lex front = .error ⟨.unterminatedString, position⟩)
    (unquoted : '"' ∉ tail.toList) :
    lex (front ++ tail) = .error ⟨.unterminatedString, position⟩ := by
  rcases exists_defect_of_lex_eq_error failed with
    ⟨lexemes, read, passed, rest, whole, spelling, heads, rfl⟩
  cases heads with
  | @unterminatedString content closed =>
      have headsOn : Defect.unterminatedString.Heads
          ('"' :: (content ++ tail.toList)) [] :=
        .unterminatedString (by simp [closed, unquoted])
      have longer : (front ++ tail).toList =
          read ++ ('"' :: (content ++ tail.toList) ++ []) := by
        rw [String.toList_append, whole]
        simp
      rw [whole] at spelling
      -- The opening quote is still the first character of the rest.
      have spelled : Spelling lexemes (front ++ tail).toList
          ('"' :: (content ++ tail.toList) ++ []) := by
        rw [longer]
        exact spelling.of_head?_eq rfl
      exact lex_eq_error_of_spelling longer spelled headsOn

/-- A tail that cannot be cut by itself is cut behind a text that leaves a string open,
and then the string ends in the tail. -/
theorem exists_open_of_lex_append {front tail : String} {lexemes : List Lexeme}
    {error : LexError} (detached : Detached tail.toList)
    (failed : lex tail = .error error) (cut : lex (front ++ tail) = .ok lexemes) :
    ∃ position, lex front = .error ⟨.unterminatedString, position⟩ ∧
      '"' ∈ tail.toList := by
  cases outcome : lex front with
  | ok frontLexemes =>
      rw [lex_append_of_ok detached outcome failed] at cut
      cases cut
  | error frontError =>
      rcases frontError with ⟨defect, position⟩
      by_cases opened : defect = .unterminatedString
      · subst opened
        refine ⟨position, rfl, ?_⟩
        by_contra unquoted
        rw [lex_append_of_open outcome unquoted] at cut
        cases cut
      · rw [lex_append_of_error detached outcome opened] at cut
        cases cut

/-- With blanks between them two texts are cut into the lexemes of the first and
then those of the second. An error in the second is moved by what stands in front
of it, and one in the first stays as it is, unless it is a string without an end. -/
theorem lex_append_blanks {blanks : String} (nonempty : blanks ≠ "")
    (blank : ∀ character ∈ blanks.toList, isBlank character = true)
    (first second : String) :
    let whole := first ++ blanks ++ second
    (∀ lexemes, lex first = .ok (lexemes ++ [.endOfInput]) →
      (∀ behind, lex second = .ok behind → lex whole = .ok (lexemes ++ behind)) ∧
      ∀ error, lex second = .error error →
        lex whole = .error (error.shift (first ++ blanks).utf8ByteSize)) ∧
    ∀ error, lex first = .error error → error.defect ≠ .unterminatedString →
      lex whole = .error error := by
  intro whole
  have detached : Detached (blanks.toList ++ second.toList) :=
    detached_of_isBlank (mt String.toList_eq_nil_iff.mp nonempty) blank _
  constructor
  · intro lexemes cut
    rcases lex_eq_ok_iff_spelling.mp cut with ⟨spelled, equal, spelling⟩
    rw [List.append_cancel_right_eq] at equal
    subst equal
    apply lex_append_of_spelling
    intro others final behind
    have spaced := Spelling.blanks blank behind
    simpa using spelling.append detached spaced
  · intro error failed closed
    have apart : Detached (blanks ++ second).toList := by
      rwa [String.toList_append]
    have longer := lex_append_of_error apart failed closed
    rwa [← String.append_assoc] at longer

/-- The comparison does not reach over the tab, and the number out of range ends in
front of it. -/
theorem lex_append_blanks_tab :
    lex ("\"é\"<" ++ "\t " ++ "= 007") =
        .ok [.str "é", .symbol .less, .symbol .equal, .int 7, .endOfInput] ∧
      lex ("\"é\"<" ++ "\t " ++ "=_") = .error ⟨.unexpectedCharacter '_', 8⟩ ∧
      lex ("9223372036854775808" ++ "\t " ++ "\"") =
        .error ⟨.integerOverflow "9223372036854775808", 0⟩ := by
  have blank : ∀ character ∈ "\t ".toList, isBlank character = true :=
    List.all_eq_true.mp rfl
  have appended := lex_append_blanks (by decide) blank
  have cut : lex "\"é\"<" = .ok ([.str "é", .symbol .less] ++ [.endOfInput]) := by
    decide +kernel
  have number : lex "= 007" = .ok [.symbol .equal, .int 7, .endOfInput] := by
    decide +kernel
  have underscore : lex "=_" = .error ⟨.unexpectedCharacter '_', 1⟩ := by
    decide +kernel
  have large : lex "9223372036854775808" =
      .error ⟨.integerOverflow "9223372036854775808", 0⟩ := by
    decide +kernel
  exact ⟨((appended _ _).1 _ cut).1 _ number, ((appended _ _).1 _ cut).2 _ underscore,
    (appended _ _).2 _ large nofun⟩

end LineBasic
