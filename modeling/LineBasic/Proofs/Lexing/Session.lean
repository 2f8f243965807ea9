import LineBasic.Proofs.Lexing.Tokenize
import LineBasic.Text.Slice

/-! Calls on a cursor, made one after the other.

A call goes over some of the unread characters, whether it fails or not. So the
cursor stands between two characters of its text at all times, it never goes
back, and every part of the text that lies between two places on its way can be
cut out. -/

namespace LineBasic

/-- What can be asked of a cursor or a scanner: one lexeme, or all that are left. -/
inductive Call where
  | next
  | tokenize

namespace Cursor

/-- The answer to a call, and the cursor that it leaves. One lexeme is given as a
list as well. -/
def answer (cursor : Cursor) : Call → Except LexError (List Lexeme) × Cursor
  | .next => (cursor.next.1.map fun lexeme => [lexeme], cursor.next.2)
  | .tokenize => cursor.tokenize

/-- The cursor after calls that are made one after the other. -/
def after (cursor : Cursor) (calls : List Call) : Cursor :=
  calls.foldl (fun cursor call => (cursor.answer call).2) cursor

/-- The answers to calls that are made one after the other, each with the cursor
that it leaves. -/
def answers (cursor : Cursor) :
    List Call → List (Except LexError (List Lexeme) × Cursor)
  | [] => []
  | call :: later => cursor.answer call :: (cursor.answer call).2.answers later

/-! ## All lexemes by single steps -/

/-- The steps by which lexemes are taken one at a time, up to the end marker or
the first defect. -/
inductive Drains : Cursor → Nat → Except LexError (List Lexeme) × Cursor → Prop
  | finish {cursor after : Cursor}
      (step : cursor.next = (.ok .endOfInput, after)) :
      Drains cursor 1 (.ok [.endOfInput], after)
  | fail {cursor after : Cursor} {error : LexError}
      (step : cursor.next = (.error error, after)) :
      Drains cursor 1 (.error error, after)
  | take {cursor between after : Cursor} {lexeme : Lexeme} {steps : Nat}
      {result : Except LexError (List Lexeme)}
      (step : cursor.next = (.ok lexeme, between)) (more : lexeme ≠ .endOfInput)
      (behind : Drains between steps (result, after)) :
      Drains cursor (steps + 1) (result.map (lexeme :: ·), after)

theorem Drains.tokenize_eq {cursor : Cursor} {steps : Nat}
    {answer : Except LexError (List Lexeme) × Cursor}
    (drains : cursor.Drains steps answer) : cursor.tokenize = answer := by
  induction drains with
  | finish step => exact tokenize_of_end step
  | fail step => exact tokenize_of_error step
  | take step more behind induction =>
      rw [tokenize_of_lexeme step more, induction]

/-- Each step but the last takes a character at least. -/
theorem drains_tokenize (cursor : Cursor) :
    ∃ steps ≤ cursor.unread.length + 1, cursor.Drains steps cursor.tokenize := by
  -- The loop has no counter: what is left to read bounds it.
  induction size : cursor.unread.length using Nat.strongRecOn
    generalizing cursor with
  | ind size induction =>
      subst size
      rcases step : cursor.next with ⟨error | lexeme, after⟩
      · rw [tokenize_of_error step]
        exact ⟨1, by omega, .fail step⟩
      · by_cases last : lexeme = .endOfInput
        · subst last
          rw [tokenize_of_end step]
          exact ⟨1, by omega, .finish step⟩
        · have shorter := next_unread_length_lt step last
          rcases induction _ shorter after rfl with ⟨steps, bound, behind⟩
          rw [tokenize_of_lexeme step last]
          exact ⟨steps + 1, by omega, .take step last behind⟩

/-! ## The way of a cursor -/

/-- A cursor that has gone over some characters. -/
structure Passes (cursor : Cursor) (passed : List Char) (moved : Cursor) :
    Prop where
  unread : cursor.unread = passed ++ moved.unread
  position : moved.position = cursor.position + byteLength passed

theorem Passes.trans {cursor between moved : Cursor} {passed later : List Char}
    (first : cursor.Passes passed between) (second : between.Passes later moved) :
    cursor.Passes (passed ++ later) moved := by
  constructor
  · rw [first.unread, second.unread, List.append_assoc]
  · rw [second.position, first.position, byteLength_append, Nat.add_assoc]

theorem passes_skipBlanks (cursor : Cursor) :
    cursor.Passes (cursor.unread.takeWhile isBlank) cursor.skipBlanks :=
  ⟨List.takeWhile_append_dropWhile.symm, rfl⟩

theorem passes_next (cursor : Cursor) :
    cursor.Passes
      (cursor.unread.takeWhile isBlank ++
        (Scan.ofText cursor.skipBlanks.unread).consumed)
      cursor.next.2 :=
  cursor.passes_skipBlanks.trans
    ⟨(Scan.consumed_append_rest cursor.skipBlanks.unread).symm, rfl⟩

theorem Drains.passes {cursor : Cursor} {steps : Nat}
    {answer : Except LexError (List Lexeme) × Cursor}
    (drains : cursor.Drains steps answer) :
    ∃ passed, cursor.Passes passed answer.2 := by
  induction drains with
  | @finish cursor after step => exact ⟨_, step ▸ cursor.passes_next⟩
  | @fail cursor after error step => exact ⟨_, step ▸ cursor.passes_next⟩
  | @take cursor between after lexeme steps result step more behind induction =>
      rcases induction with ⟨later, rest⟩
      have first := cursor.passes_next
      rw [step] at first
      exact ⟨_, first.trans rest⟩

theorem passes_answer (cursor : Cursor) (call : Call) :
    ∃ passed, cursor.Passes passed (cursor.answer call).2 := by
  cases call with
  | next => exact ⟨_, cursor.passes_next⟩
  | tokenize =>
      rcases cursor.drains_tokenize with ⟨steps, -, drains⟩
      exact drains.passes

/-! ## The place of a cursor in its text -/

/-- A cursor between the characters of a text: what is unread stands behind it,
and the position counts the bytes in front of it. -/
def StandsIn (cursor : Cursor) (source : String) : Prop :=
  ∃ read : String, read ++ cursor.remaining = source ∧
    cursor.position = read.utf8ByteSize

theorem remaining_ofText (source : String) : (ofText source).remaining = source :=
  String.ofList_toList

theorem ofText_remaining (cursor : Cursor) :
    ofText cursor.remaining = cursor.rebase := by
  simp [ofText, remaining, rebase]

theorem standsIn_ofText (source : String) : (ofText source).StandsIn source :=
  ⟨"", by simp [remaining_ofText], rfl⟩

section

variable {cursor moved : Cursor} {source : String} {passed : List Char}

theorem Passes.remaining (passes : cursor.Passes passed moved) :
    cursor.remaining = String.ofList passed ++ moved.remaining := by
  rw [Cursor.remaining, passes.unread, String.ofList_append, Cursor.remaining]

theorem Passes.position_eq (passes : cursor.Passes passed moved) :
    moved.position = cursor.position + (String.ofList passed).utf8ByteSize := by
  rw [passes.position, ← byteLength_toList, String.toList_ofList]

theorem StandsIn.of_passes (stands : cursor.StandsIn source)
    (passes : cursor.Passes passed moved) : moved.StandsIn source := by
  rcases stands with ⟨read, whole, counted⟩
  refine ⟨read ++ String.ofList passed, ?_, ?_⟩
  · rw [String.append_assoc, ← passes.remaining, whole]
  · rw [passes.position_eq, counted, String.utf8ByteSize_append]

theorem StandsIn.answer (stands : cursor.StandsIn source) (call : Call) :
    (cursor.answer call).2.StandsIn source := by
  rcases cursor.passes_answer call with ⟨passed, passes⟩
  exact stands.of_passes passes

theorem StandsIn.after (stands : cursor.StandsIn source) (calls : List Call) :
    (cursor.after calls).StandsIn source := by
  induction calls generalizing cursor with
  | nil => exact stands
  | cons call later induction => exact induction (stands.answer call)

theorem StandsIn.length_eq (stands : cursor.StandsIn source) :
    cursor.length = source.utf8ByteSize := by
  rcases stands with ⟨read, rfl, counted⟩
  rw [length, counted, String.utf8ByteSize_append, Cursor.remaining,
    ← byteLength_toList (String.ofList _), String.toList_ofList]

/-! ## Parts of the text -/

/-- Every part between two places that a cursor goes through can be cut out of
the text, and so can what follows such a place. -/
theorem StandsIn.slice?_passed (stands : cursor.StandsIn source)
    {front middle behind : String}
    (split : cursor.remaining = front ++ middle ++ behind ++ moved.remaining) :
    let start := cursor.position + front.utf8ByteSize
    slice? source start (start + middle.utf8ByteSize) = some middle ∧
      slice? source start source.utf8ByteSize =
        some (middle ++ behind ++ moved.remaining) := by
  rcases stands with ⟨read, rfl, counted⟩
  rw [split, counted]
  constructor
  · apply slice?_eq_some_iff.mpr
    refine ⟨read ++ front, behind ++ moved.remaining, ?_, ?_, ?_⟩
    · simp [String.append_assoc]
    · simp
    · simp
  · apply slice?_eq_some_iff.mpr
    refine ⟨read ++ front, "", ?_, ?_, ?_⟩
    · simp [String.append_assoc]
    · simp
    · simp [Nat.add_assoc]

/-- What remains is cut out of the text at the position. -/
theorem StandsIn.slice?_position (stands : cursor.StandsIn source) :
    slice? source cursor.position source.utf8ByteSize = some cursor.remaining := by
  rcases stands with ⟨read, rfl, counted⟩
  exact slice?_eq_some_iff.mpr ⟨read, "", by simp, counted, rfl⟩

end

end Cursor

end LineBasic
