import LineBasic.Proofs.Lexing.Tokenize

/-! Where a run fails, with what, and where it leaves the cursor. -/

namespace LineBasic

/-- A run from the start of a text fails exactly at the first defect: the text
in front of it is spelled, no spelling is read on into what follows, and the
cursor stays behind what the defect passes over. -/
theorem tokenize_eq_error_iff (source : String) (defect : Defect)
    (position finish : Nat) :
    (∃ after, after.position = finish ∧
        (Cursor.ofText source).tokenize = (.error ⟨defect, position⟩, after)) ↔
      ∃ lexemes read passed rest,
        source.toList = read ++ (passed ++ rest) ∧
          byteLength read = position ∧
          Spelling lexemes source.toList (passed ++ rest) ∧
          defect.Heads passed rest ∧
          finish = position + byteLength passed := by
  constructor
  · intro run
    rcases run with ⟨after, rfl, failed⟩
    rcases exists_spelling source.toList with ⟨lexemes, behind, spelling, ending⟩
    rcases ending with rfl | ⟨first, passed, rest, rfl, heads⟩
    · rw [Cursor.ofText, Cursor.tokenize_of_spelled_text spelling] at failed
      cases failed
    · rcases Cursor.tokenize_of_defect spelling heads with ⟨read, whole, run⟩
      rw [Cursor.ofText, run, Nat.zero_add] at failed
      cases failed
      exact ⟨lexemes, read, passed, rest, whole, rfl, spelling, heads, rfl⟩
  · intro spelled
    rcases spelled with
      ⟨lexemes, read, passed, rest, whole, rfl, spelling, heads, rfl⟩
    rcases Cursor.tokenize_of_defect spelling heads with ⟨front, sameWhole, run⟩
    have same : read = front :=
      List.append_cancel_right (whole.symm.trans sameWhole)
    subst same
    have failed := run 0
    rw [Nat.zero_add] at failed
    exact ⟨_, rfl, failed⟩

/-- The number that a space sets off from a string of two characters, one of
them of two bytes, is too large by one. -/
theorem tokenize_overflow_behind_string :
    ∃ after, after.position = 25 ∧
      (Cursor.ofText "\"é!\" 9223372036854775808#").tokenize =
        (.error ⟨.integerOverflow "9223372036854775808", 6⟩, after) := by
  have quoted : (Lexeme.str "é!").Spelled "\"é!\"".toList :=
    @Lexeme.Spelled.str "é!" (by simp)
  have decimal : ∀ digit ∈ "9223372036854775808".toList, digit.isDigit = true :=
    List.all_eq_true.mp rfl
  have heads : (Defect.integerOverflow "9223372036854775808").Heads
      "9223372036854775808".toList ['#'] :=
    .integerOverflow decimal (by simp) (by decide)
  have whole : "\"é!\" 9223372036854775808#".toList =
      "\"é!\"".toList ++ ' ' :: ("9223372036854775808".toList ++ ['#']) := by
    decide
  have spelling : Spelling [.str "é!"] ("\"é!\" 9223372036854775808#".toList)
      ("9223372036854775808".toList ++ ['#']) := by
    rw [whole]
    exact .lexeme quoted (by simp [Lexeme.readsOn])
      (.blank (by decide) (.rest heads.inked))
  apply (tokenize_eq_error_iff _ _ _ _).mpr
  exact ⟨[.str "é!"], "\"é!\" ".toList, "9223372036854775808".toList, ['#'],
    by decide, by decide, spelling, heads, by decide⟩

end LineBasic
