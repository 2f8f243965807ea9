import LineBasic.Proofs.Lexing.Session

/-! Progress of a session.

A step either goes over a character or leaves the cursor where it will stay, so
that a session comes to rest after no more steps than there are characters, and
taking all lexemes comes to an end from everywhere. -/

namespace LineBasic

/-- Whether an answer is given again for ever: the end of the text, or a character
that begins no lexeme. A number out of range and a string without an end are
passed over, and reading goes on behind them. -/
def isFinal : Except LexError Lexeme → Bool
  | .ok lexeme => lexeme = .endOfInput
  | .error ⟨.unexpectedCharacter _, _⟩ => true
  | .error ⟨.integerOverflow _, _⟩ | .error ⟨.unterminatedString, _⟩ => false

/-- Only a step to a final answer goes over nothing. -/
theorem Scan.Step.consumed_eq_nil_iff {text : List Char} {scan : Scan}
    (step : Step text scan) (position : Nat) :
    scan.consumed = [] ↔
      isFinal (scan.outcome.mapError fun defect => ⟨defect, position⟩) = true := by
  cases step with
  | finish => exact iff_of_true rfl rfl
  | take spelled apart =>
      apply iff_of_false
      · rcases spelled.exists_cons with ⟨first, tail, rfl, -⟩
        exact List.cons_ne_nil first tail
      · simpa [Except.mapError, isFinal] using spelled.ne_endOfInput
  | fail heads =>
      cases heads with
      | unexpectedCharacter => exact iff_of_true rfl rfl
      | integerOverflow decimal maximal large =>
          exact iff_of_false (ne_nil_of_largestInt_lt large) Bool.false_ne_true
      | unterminatedString =>
          exact iff_of_false (List.cons_ne_nil _ _) Bool.false_ne_true

theorem Scan.Step.rest_eq_nil {text : List Char} {scan : Scan}
    (step : Step text scan) (last : scan.outcome = .ok .endOfInput) :
    scan.rest = [] := by
  cases step with
  | finish => rfl
  | take spelled apart => exact absurd (Except.ok.inj last) spelled.ne_endOfInput
  | fail heads => cases last

theorem Scan.Step.rest_head {text : List Char} {scan : Scan} {character : Char}
    (step : Step text scan)
    (unexpected : scan.outcome = .error (.unexpectedCharacter character)) :
    scan.rest.head? = some character := by
  cases step with
  | finish => cases unexpected
  | take spelled apart => cases unexpected
  | fail heads =>
      cases unexpected
      cases heads
      rfl

namespace Cursor

theorem step_next (cursor : Cursor) :
    Scan.Step cursor.skipBlanks.unread (Scan.ofText cursor.skipBlanks.unread) :=
  Scan.step_ofText (outside_dropWhile isBlank cursor.unread)

theorem next_skipBlanks (cursor : Cursor) :
    cursor.skipBlanks.next = cursor.next :=
  next_step cursor.skipBlanks.position (outside_dropWhile isBlank cursor.unread)
    cursor.step_next

theorem consumed_eq_nil_iff (cursor : Cursor) :
    (Scan.ofText cursor.skipBlanks.unread).consumed = [] ↔
      isFinal cursor.next.1 = true :=
  cursor.step_next.consumed_eq_nil_iff cursor.skipBlanks.position

/-! ## Onward -/

section

variable {cursor : Cursor} (onward : isFinal cursor.next.1 = false)
include onward

theorem exists_passes_of_not_isFinal :
    ∃ passed, passed ≠ [] ∧ cursor.Passes passed cursor.next.2 := by
  refine ⟨_, ?_, cursor.passes_next⟩
  intro nothing
  have final := cursor.consumed_eq_nil_iff.mp (List.append_eq_nil_iff.mp nothing).2
  exact Bool.eq_false_iff.mp onward final

theorem position_lt_next : cursor.position < cursor.next.2.position := by
  rcases exists_passes_of_not_isFinal onward with ⟨passed, something, passes⟩
  have positive : byteLength passed ≠ 0 := mt byteLength_eq_zero_iff.mp something
  have moved := passes.position
  omega

theorem unread_length_lt_next :
    cursor.next.2.unread.length < cursor.unread.length := by
  rcases exists_passes_of_not_isFinal onward with ⟨passed, something, passes⟩
  have positive := List.length_pos_iff.mpr something
  have whole := congrArg List.length passes.unread
  rw [List.length_append] at whole
  omega

end

/-- A session comes to rest after no more steps than there are characters. -/
theorem exists_isFinal (cursor : Cursor) :
    ∃ count ≤ cursor.unread.length,
      isFinal (cursor.after (List.replicate count .next)).next.1 = true := by
  induction size : cursor.unread.length using Nat.strongRecOn
    generalizing cursor with
  | ind size induction =>
      subst size
      cases answer : isFinal cursor.next.1 with
      | true => exact ⟨0, Nat.zero_le _, answer⟩
      | false =>
          have shorter := unread_length_lt_next answer
          rcases induction _ shorter cursor.next.2 rfl with ⟨count, bound, final⟩
          exact ⟨count + 1, by omega, final⟩

/-! ## At rest -/

section

variable {cursor : Cursor} (final : isFinal cursor.next.1 = true)
include final

/-- A final answer leaves the cursor behind the blanks that it has skipped. -/
theorem next_eq_skipBlanks : cursor.next.2 = cursor.skipBlanks := by
  have consumed := cursor.consumed_eq_nil_iff.mpr final
  have whole := Scan.consumed_append_rest cursor.skipBlanks.unread
  rw [consumed, List.nil_append] at whole
  simp [next, consumed, whole]

theorem next_again : cursor.next.2.next = cursor.next := by
  rw [next_eq_skipBlanks final, next_skipBlanks]

theorem tokenize_again :
    cursor.next.2.tokenize =
      (cursor.next.1.map fun lexeme => [lexeme], cursor.next.2) := by
  have again := next_again final
  rcases step : cursor.next with ⟨error | lexeme, moved⟩
  · rw [step] at again
    exact tokenize_of_error again
  · rw [step] at again final
    have last : lexeme = .endOfInput := by simpa [isFinal] using final
    subst last
    exact tokenize_of_end again

theorem after_again (calls : List Call) :
    cursor.next.2.after calls = cursor.next.2 := by
  have stays (call : Call) : (cursor.next.2.answer call).2 = cursor.next.2 := by
    cases call with
    | next => rw [answer, next_again final]
    | tokenize => rw [answer, tokenize_again final]
  induction calls with
  | nil => rfl
  | cons call later induction =>
      rw [after, List.foldl_cons, stays]
      exact induction

end

/-! ## What the last answers say -/

theorem outcome_of_next_error {cursor : Cursor} {error : LexError}
    (failed : cursor.next.1 = .error error) :
    (Scan.ofText cursor.skipBlanks.unread).outcome = .error error.defect ∧
      error.position = cursor.skipBlanks.position := by
  cases outcome : (Scan.ofText cursor.skipBlanks.unread).outcome with
  | error defect =>
      simp only [next, outcome, Except.mapError, Except.error.injEq] at failed
      subst failed
      exact ⟨rfl, rfl⟩
  | ok found => simp [next, outcome, Except.mapError] at failed

theorem unread_eq_nil_of_end {cursor : Cursor}
    (last : cursor.next.1 = .ok .endOfInput) : cursor.next.2.unread = [] :=
  cursor.step_next.rest_eq_nil (Scan.outcome_eq_ok last)

theorem at_unexpectedCharacter {cursor : Cursor} {character : Char} {position : Nat}
    (failed : cursor.next.1 = .error ⟨.unexpectedCharacter character, position⟩) :
    cursor.next.2.position = position ∧
      cursor.next.2.unread.head? = some character := by
  rcases outcome_of_next_error failed with ⟨outcome, place⟩
  have final : isFinal cursor.next.1 = true := by rw [failed]; rfl
  rw [next_eq_skipBlanks final]
  refine ⟨place.symm, ?_⟩
  rw [← next_eq_skipBlanks final]
  exact cursor.step_next.rest_head outcome

/-! ## Any session -/

/-- What a step does in any session. It goes over a character, unless it finds the
end of the text or stops at a character that begins no lexeme. From then on every
call gets this answer and the cursor stays, and this happens after no more steps
than there are unread characters. All lexemes are taken in so many steps as well. -/
theorem progress_or_rest (source : String) (calls : List Call) :
    let cursor := (ofText source).after calls
    let reply := cursor.next.1
    let moved := cursor.next.2
    (isFinal reply = false → cursor.position < moved.position) ∧
    (reply = .ok .endOfInput → moved.position = source.utf8ByteSize) ∧
    (∀ character position,
      reply = .error ⟨.unexpectedCharacter character, position⟩ →
        moved.position = position ∧ moved.unread.head? = some character) ∧
    (isFinal reply = true → ∀ further, let settled := moved.after further
      settled.next = (reply, moved) ∧
        settled.tokenize = (reply.map fun lexeme => [lexeme], moved)) ∧
    (∃ count ≤ cursor.unread.length,
      isFinal (cursor.after (List.replicate count .next)).next.1 = true) ∧
    ∃ steps ≤ cursor.unread.length + 1, cursor.Drains steps cursor.tokenize := by
  intro cursor reply moved
  have stands : cursor.StandsIn source := (standsIn_ofText source).after calls
  refine ⟨position_lt_next, ?_, fun _ _ => at_unexpectedCharacter, ?_,
    cursor.exists_isFinal, cursor.drains_tokenize⟩
  · intro last
    have length : moved.length = source.utf8ByteSize :=
      (stands.answer .next).length_eq
    have unread : moved.unread = [] := unread_eq_nil_of_end last
    rwa [Cursor.length, unread, byteLength_nil, Nat.add_zero] at length
  · intro final further settled
    have stays : settled = moved := after_again final further
    rw [stays]
    exact ⟨next_again final, tokenize_again final⟩

end Cursor

end LineBasic
