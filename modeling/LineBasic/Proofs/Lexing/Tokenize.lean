import LineBasic.Cursor
import LineBasic.Proofs.Lexing.Scan

/-! Whole runs of a cursor against the rules of spelling.

A run takes the lexemes of a spelled text one after the other. Every text is
spelled up to its end or up to its first defect, so these two endings are all
that a run can have. -/

namespace LineBasic

/-! ## Texts before a defect -/

theorem Defect.Heads.inked {defect : Defect} {passed rest : List Char}
    (heads : defect.Heads passed rest) :
    ∀ next ∈ (passed ++ rest).head?, isBlank next = false := by
  cases heads with
  | unexpectedCharacter inked => simpa using inked
  | integerOverflow decimal maximal large =>
      rcases List.exists_cons_of_ne_nil
        (Scan.ne_nil_of_largestInt_lt large) with ⟨first, tail, rfl⟩
      have digit := decimal first List.mem_cons_self
      simpa using isBlank_eq_false_of_isNameTail (isNameTail_of_isDigit digit)
  | unterminatedString unquoted => simp [isBlank]

theorem Lexeme.Spelled.exists_cons {lexeme : Lexeme} {spelling : List Char}
    (spelled : lexeme.Spelled spelling) :
    ∃ first tail, spelling = first :: tail ∧ isBlank first = false := by
  cases spelled with
  | int nonempty decimal inRange =>
      rcases List.exists_cons_of_ne_nil nonempty with ⟨first, tail, rfl⟩
      have digit := decimal first List.mem_cons_self
      exact ⟨first, tail, rfl,
        isBlank_eq_false_of_isNameTail (isNameTail_of_isDigit digit)⟩
  | ident shaped =>
      rcases exists_cons_of_isName shaped with ⟨first, tail, equal, letter, -⟩
      exact ⟨first, tail, equal,
        isBlank_eq_false_of_isNameTail (isNameTail_of_isAlpha letter)⟩
  | symbol value => cases value <;> exact ⟨_, _, rfl, by decide⟩
  | str unquoted => exact ⟨'"', _, rfl, by decide⟩

theorem Lexeme.Spelled.ne_endOfInput {lexeme : Lexeme} {spelling : List Char}
    (spelled : lexeme.Spelled spelling) : lexeme ≠ .endOfInput := by
  intro last
  subst last
  cases spelled

/-- Every text is spelled up to its end or up to a defect. -/
theorem exists_spelling (text : List Char) :
    ∃ lexemes rest, Spelling lexemes text rest ∧
      (rest = [] ∨ ∃ defect passed behind,
        rest = passed ++ behind ∧ Defect.Heads defect passed behind) := by
  induction size : text.length using Nat.strongRecOn generalizing text with
  | ind size induction =>
      subst size
      cases text with
      | nil => exact ⟨[], [], .rest (by simp), .inl rfl⟩
      | cons first tail =>
          cases blank : isBlank first with
          | true =>
              rcases induction tail.length (by simp) tail rfl with
                ⟨lexemes, rest, spelling, ending⟩
              exact ⟨lexemes, rest, .blank blank spelling, ending⟩
          | false =>
              have inked : ∀ next ∈ (first :: tail).head?,
                  isBlank next = false := by simpa using blank
              have step := Scan.step_ofText inked
              generalize first :: tail = text at *
              generalize Scan.ofText text = scan at step
              cases step with
              | finish => exact ⟨[], [], .rest (by simp), .inl rfl⟩
              | @take lexeme written behind spelled apart =>
                  rcases spelled.exists_cons with ⟨head, others, rfl, -⟩
                  have shorter : behind.length <
                      (head :: others ++ behind).length := by
                    rw [List.length_append, List.length_cons]
                    omega
                  rcases induction behind.length shorter behind rfl with
                    ⟨lexemes, rest, spelling, ending⟩
                  exact ⟨lexeme :: lexemes, rest,
                    .lexeme spelled apart spelling, ending⟩
              | @fail defect passed behind heads =>
                  exact ⟨[], passed ++ behind, .rest heads.inked,
                    .inr ⟨defect, passed, behind, rfl, heads⟩⟩

/-! ## Single steps -/

namespace Cursor

theorem next_blank {position : Nat} {first : Char} {text : List Char}
    (blank : isBlank first = true) :
    (⟨position, first :: text⟩ : Cursor).next =
      (⟨position + first.utf8Size, text⟩ : Cursor).next := by
  simp [next, skipBlanks, blank, Nat.add_assoc]

theorem next_step (position : Nat) {text : List Char} {scan : Scan}
    (inked : ∀ next ∈ text.head?, isBlank next = false)
    (step : Scan.Step text scan) :
    (⟨position, text⟩ : Cursor).next =
      (scan.outcome.mapError fun defect => ⟨defect, position⟩,
        ⟨position + byteLength scan.consumed, scan.rest⟩) := by
  have noBlank : ∀ character ∈ [], isBlank character = true := by simp
  have skipped := takeWhile_run noBlank inked
  have unread := dropWhile_run noBlank inked
  rw [List.nil_append] at skipped unread
  simp [next, skipBlanks, skipped, unread, step.eq_ofText]

/-! ## Whole runs -/

theorem tokenize_of_end {cursor after : Cursor}
    (step : cursor.next = (.ok .endOfInput, after)) :
    cursor.tokenize = (.ok [.endOfInput], after) := by
  rw [tokenize]
  split <;> simp_all

theorem tokenize_of_lexeme {cursor after : Cursor} {lexeme : Lexeme}
    (step : cursor.next = (.ok lexeme, after)) (more : lexeme ≠ .endOfInput) :
    cursor.tokenize =
      (after.tokenize.1.map (lexeme :: ·), after.tokenize.2) := by
  rw [tokenize]
  split <;> simp_all

theorem tokenize_of_error {cursor after : Cursor} {error : LexError}
    (step : cursor.next = (.error error, after)) :
    cursor.tokenize = (.error error, after) := by
  rw [tokenize]
  split <;> simp_all

theorem tokenize_eq_of_next_eq {left right : Cursor}
    (same : left.next = right.next) : left.tokenize = right.tokenize := by
  rcases step : right.next with ⟨error | lexeme, after⟩
  · rw [tokenize_of_error step, tokenize_of_error (same.trans step)]
  · by_cases last : lexeme = .endOfInput
    · subst last
      rw [tokenize_of_end step, tokenize_of_end (same.trans step)]
    · rw [tokenize_of_lexeme step last,
        tokenize_of_lexeme (same.trans step) last]

/-- A run over a spelled text takes its lexemes and goes on behind it. -/
theorem tokenize_of_spelling {lexemes : List Lexeme} {text rest : List Char}
    (spelling : Spelling lexemes text rest) :
    ∃ read, text = read ++ rest ∧ ∀ position,
      let behind : Cursor := ⟨position + byteLength read, rest⟩
      (⟨position, text⟩ : Cursor).tokenize =
        (behind.tokenize.1.map (lexemes ++ ·), behind.tokenize.2) := by
  induction spelling with
  | @rest rest inked =>
      refine ⟨[], rfl, ?_⟩
      intro position
      simp only [byteLength_nil, Nat.add_zero]
      rcases (⟨position, rest⟩ : Cursor).tokenize with ⟨_ | _, _⟩ <;> rfl
  | @blank lexemes first text rest skipped behind induction =>
      rcases induction with ⟨read, whole, run⟩
      refine ⟨first :: read, by rw [whole]; rfl, ?_⟩
      intro position
      rw [tokenize_eq_of_next_eq (next_blank skipped), run,
        byteLength_cons, Nat.add_assoc]
  | @lexeme lexeme lexemes spelling text rest spelled apart behind induction =>
      rcases induction with ⟨read, whole, run⟩
      refine ⟨spelling ++ read, by rw [whole, List.append_assoc], ?_⟩
      intro position
      have inked : ∀ next ∈ (spelling ++ text).head?, isBlank next = false := by
        rcases spelled.exists_cons with ⟨first, tail, rfl, inked⟩
        simpa using inked
      have step := next_step position inked (.take spelled apart)
      rw [tokenize_of_lexeme step spelled.ne_endOfInput, run,
        byteLength_append, Nat.add_assoc]
      dsimp only
      rcases (⟨position + (byteLength spelling + byteLength read), rest⟩ :
        Cursor).tokenize with ⟨_ | _, _⟩ <;> rfl

/-- A run over a text that is spelled up to its end. -/
theorem tokenize_of_spelled_text {lexemes : List Lexeme} {text : List Char}
    (spelling : Spelling lexemes text []) (position : Nat) :
    (⟨position, text⟩ : Cursor).tokenize =
      (.ok (lexemes ++ [.endOfInput]), ⟨position + byteLength text, []⟩) := by
  rcases tokenize_of_spelling spelling with ⟨read, whole, run⟩
  rw [List.append_nil] at whole
  subst whole
  have step := next_step (position + byteLength text) (by simp) .finish
  rw [run, tokenize_of_end step]
  rfl

/-- A run over a text that is spelled up to a defect. -/
theorem tokenize_of_defect {lexemes : List Lexeme}
    {text passed rest : List Char} {defect : Defect}
    (spelling : Spelling lexemes text (passed ++ rest))
    (heads : defect.Heads passed rest) :
    ∃ read, text = read ++ (passed ++ rest) ∧ ∀ position,
      (⟨position, text⟩ : Cursor).tokenize =
        (.error ⟨defect, position + byteLength read⟩,
          ⟨position + byteLength read + byteLength passed, rest⟩) := by
  rcases tokenize_of_spelling spelling with ⟨read, whole, run⟩
  refine ⟨read, whole, ?_⟩
  intro position
  have step := next_step (position + byteLength read) heads.inked
    (.fail heads)
  rw [run, tokenize_of_error step]
  rfl

end Cursor

/-! ## All lexemes of a text -/

theorem lex_eq_ok_iff_spelling {source : String} {found : List Lexeme} :
    lex source = .ok found ↔
      ∃ lexemes, found = lexemes ++ [.endOfInput] ∧
        Spelling lexemes source.toList [] := by
  constructor
  · intro read
    rcases exists_spelling source.toList with ⟨lexemes, rest, spelling, ending⟩
    rcases ending with rfl | ⟨defect, passed, behind, rfl, heads⟩
    · rw [lex, Cursor.ofText, Cursor.tokenize_of_spelled_text spelling] at read
      exact ⟨lexemes, (Except.ok.inj read).symm, spelling⟩
    · rcases Cursor.tokenize_of_defect spelling heads with ⟨_, _, run⟩
      rw [lex, Cursor.ofText, run] at read
      cases read
  · intro spelled
    rcases spelled with ⟨lexemes, rfl, spelling⟩
    rw [lex, Cursor.ofText, Cursor.tokenize_of_spelled_text spelling]

theorem lex_eq_error_of_spelling {source : String} {lexemes : List Lexeme}
    {read passed rest : List Char} {defect : Defect}
    (whole : source.toList = read ++ (passed ++ rest))
    (spelling : Spelling lexemes source.toList (passed ++ rest))
    (heads : defect.Heads passed rest) :
    lex source = .error ⟨defect, byteLength read⟩ := by
  rcases Cursor.tokenize_of_defect spelling heads with ⟨front, sameWhole, run⟩
  have same : read = front :=
    List.append_cancel_right (whole.symm.trans sameWhole)
  subst same
  rw [lex, Cursor.ofText, run, Nat.zero_add]

end LineBasic
