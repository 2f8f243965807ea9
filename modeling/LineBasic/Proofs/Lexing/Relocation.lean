import LineBasic.Proofs.Lexing.Boundary

/-! Reading depends on the unread text alone.

A scanner that has come some bytes far gives the answers of a fresh scanner over
what remains, with all places so many bytes further on. For cursors this is shown
step by step; the two scanners work with different texts and different offsets, and
each of them does what its cursor does. -/

namespace LineBasic

namespace Cursor

/-- The same cursor in a text that has so many more bytes in front. -/
def shift (cursor : Cursor) (bytes : Nat) : Cursor :=
  { cursor with position := bytes + cursor.position }

/-- An answer and the cursor that it leaves, with the places of an error and of the
cursor so many bytes further on. -/
def shiftAnswer {Answer : Type} (bytes : Nat)
    (answer : Except LexError Answer × Cursor) : Except LexError Answer × Cursor :=
  (answer.1.mapError fun error => error.shift bytes, answer.2.shift bytes)

/-! ## One step, all steps, all calls -/

theorem next_shift (cursor : Cursor) (bytes : Nat) :
    (cursor.shift bytes).next = shiftAnswer bytes cursor.next := by
  simp only [next, skipBlanks, shift, shiftAnswer, Nat.add_assoc]
  cases (Scan.ofText (cursor.unread.dropWhile isBlank)).outcome with
  | error defect => rfl
  | ok lexeme => rfl

theorem next_shift_eq {cursor : Cursor} {bytes : Nat}
    {answer : Except LexError Lexeme × Cursor} (step : cursor.next = answer) :
    (cursor.shift bytes).next = shiftAnswer bytes answer := by
  rw [next_shift, step]

theorem Drains.shift {cursor : Cursor} {steps : Nat}
    {answer : Except LexError (List Lexeme) × Cursor}
    (drains : cursor.Drains steps answer) (bytes : Nat) :
    (cursor.shift bytes).Drains steps (shiftAnswer bytes answer) := by
  induction drains with
  | finish step => exact .finish (next_shift_eq step)
  | fail step => exact .fail (next_shift_eq step)
  | @take cursor between after lexeme steps result step more behind induction =>
      have taken := Drains.take (next_shift_eq step) more induction
      cases result with
      | error error => exact taken
      | ok lexemes => exact taken

theorem tokenize_shift (cursor : Cursor) (bytes : Nat) :
    (cursor.shift bytes).tokenize = shiftAnswer bytes cursor.tokenize := by
  rcases cursor.drains_tokenize with ⟨steps, -, drains⟩
  exact (drains.shift bytes).tokenize_eq

theorem answer_shift (cursor : Cursor) (bytes : Nat) (call : Call) :
    (cursor.shift bytes).answer call = shiftAnswer bytes (cursor.answer call) := by
  cases call with
  | next =>
      rw [answer, next_shift, answer]
      rcases cursor.next with ⟨_ | _, _⟩ <;> rfl
  | tokenize => exact cursor.tokenize_shift bytes

theorem answers_shift (cursor : Cursor) (bytes : Nat) (calls : List Call) :
    (cursor.shift bytes).answers calls =
      (cursor.answers calls).map (shiftAnswer bytes) := by
  induction calls generalizing cursor with
  | nil => rfl
  | cons call later induction =>
      rw [answers, answer_shift, answers, List.map_cons]
      exact congrArg _ (induction _)

end Cursor

/-! ## Scanners of different texts -/

namespace Scanner

/-- A scanner answers as a fresh one over what it can cut out behind its position. -/
theorem answers?_of_remaining? {scanner : Scanner} {rest : String}
    (remains : scanner.remaining? = some rest) (calls : List Call) :
    ∃ answers, (ofText rest).answers? calls = some answers ∧
      scanner.answers? calls = some (answers.map fun (answer, position) =>
        (answer.mapError fun error => error.shift scanner.position,
          scanner.position + position)) := by
  let cursor : Cursor := ⟨scanner.position, rest.toList⟩
  have unread : cursor.remaining = rest := String.ofList_toList
  have stands : cursor.StandsIn scanner.source :=
    Cursor.standsIn_iff.mpr (remains.trans (congrArg some unread.symm))
  have moved := stands.answers? calls
  have fresh := (Cursor.standsIn_ofText rest).answers? calls
  have shifted : cursor.answers calls =
      ((Cursor.ofText rest).answers calls).map (Cursor.shiftAnswer cursor.position) :=
    (Cursor.ofText rest).answers_shift cursor.position calls
  rw [shifted, List.map_map] at moved
  refine ⟨_, fresh, ?_⟩
  rw [List.map_map]
  exact moved

/-- A scanner that has come to its place in any way answers all further calls as a
fresh scanner over the rest of the text does, call by call. Errors and positions are
exactly as many bytes further on as there are in front of that place. -/
theorem answers?_eq_of_remaining? (source : String) (events : List Session.Event)
    (further : List Call) :
    ∃ scanner rest answers, (ofText source).after? events = some scanner ∧
      scanner.remaining? = some rest ∧
      (ofText rest).answers? further = some answers ∧
      scanner.answers? further = some (answers.map fun (answer, position) =>
        (answer.mapError fun error => error.shift scanner.position,
          scanner.position + position)) := by
  let session := (Session.start source).after events
  have start := Cursor.standsIn_ofText source
  have stands := (Session.start source).standsIn_after start events
  have reached : (ofText source).after? events = some session.scanner :=
    (Session.start source).scanner_after? start events
  have remains : session.scanner.remaining? = some session.cursor.remaining :=
    Cursor.standsIn_iff.mp stands
  rcases answers?_of_remaining? remains further with ⟨answers, fresh, moved⟩
  exact ⟨session.scanner, session.cursor.remaining, answers, reached, remains, fresh,
    moved⟩

end Scanner

end LineBasic
