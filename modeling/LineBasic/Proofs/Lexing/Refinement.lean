import LineBasic.Proofs.Lexing.Session
import LineBasic.Scanner.Tokenize

/-! A scanner that reads by byte offsets against a cursor over the unread characters.

Where a cursor stands in a text, a scanner of this text at the same position finds
what the cursor has in front of it. Nothing that the scanner cuts out is out of range
or begins inside a character, and all its answers are those of the cursor. -/

namespace LineBasic

namespace Cursor

/-- The scanner of a text at the position of a cursor. -/
def scanner (cursor : Cursor) (source : String) : Scanner :=
  ⟨source, cursor.position⟩

section

variable {cursor : Cursor} {source : String}

/-- A cursor stands where the scanner cuts out what the cursor has in front of it. -/
theorem standsIn_iff :
    cursor.StandsIn source ↔
      (cursor.scanner source).remaining? = some cursor.remaining := by
  rw [Scanner.remaining?_eq_some_iff]
  rfl

theorem StandsIn.exists_between (stands : cursor.StandsIn source) :
    ∃ read, cursor.scanner source = .between read cursor.unread := by
  rcases Scanner.exists_between (standsIn_iff.mp stands) with ⟨read, same⟩
  rw [remaining, String.toList_ofList] at same
  exact ⟨read, same⟩

/-! ## Looking -/

theorem StandsIn.peek? (stands : cursor.StandsIn source) :
    (cursor.scanner source).peek? = some cursor.unread.head? := by
  rcases stands.exists_between with ⟨read, same⟩
  rw [same, Scanner.peek?_between]

theorem StandsIn.isEmpty (stands : cursor.StandsIn source) :
    (cursor.scanner source).isEmpty = cursor.isEmpty := by
  rw [Scanner.isEmpty, Cursor.isEmpty, stands.length_eq]
  rfl

theorem StandsIn.atEnd (stands : cursor.StandsIn source) :
    (cursor.scanner source).atEnd = cursor.atEnd := by
  have whole : (cursor.scanner source).length = cursor.length := stands.length_eq.symm
  have start : (cursor.scanner source).position = cursor.position := rfl
  have nothing : byteLength cursor.unread ≤ 0 ↔ cursor.unread = [] := by
    rw [Nat.le_zero, byteLength_eq_zero_iff]
  rw [Scanner.atEnd, whole, start, length, Cursor.atEnd, Bool.eq_iff_iff,
    decide_eq_true_eq, List.isEmpty_iff, ← nothing]
  omega

/-! ## One step and all steps -/

theorem Passes.scanner_eq {moved : Cursor} {read passed : List Char}
    (passes : cursor.Passes passed moved)
    (same : cursor.scanner source = .between read cursor.unread) :
    moved.scanner source = .between (read ++ passed) moved.unread := by
  injection same with whole counted
  rw [scanner, Scanner.between, List.append_assoc, ← passes.unread, ← whole,
    byteLength_append, passes.position, counted]

theorem StandsIn.next? (stands : cursor.StandsIn source) :
    (cursor.scanner source).next? =
      some (cursor.next.1, cursor.next.2.scanner source) := by
  rcases stands.exists_between with ⟨read, same⟩
  have counted : cursor.position = byteLength read := congrArg Scanner.position same
  rw [cursor.passes_next.scanner_eq same, same, Scanner.next?_between,
    Scanner.told, byteLength_append, ← counted, List.append_assoc]
  rfl

theorem Drains.tokenize? {steps : Nat}
    {answer : Except LexError (List Lexeme) × Cursor}
    (drains : cursor.Drains steps answer) (stands : cursor.StandsIn source) :
    (cursor.scanner source).tokenize? = some (answer.1, answer.2.scanner source) := by
  induction drains with
  | finish step =>
      rw [Scanner.tokenize?_eq_bind, stands.next?, step]
      rfl
  | fail step =>
      rw [Scanner.tokenize?_eq_bind, stands.next?, step]
      rfl
  | @take cursor between after lexeme steps result step more behind induction =>
      have goesOn : between.StandsIn source := by
        have moved := stands.of_passes cursor.passes_next
        rwa [step] at moved
      rw [Scanner.tokenize?_eq_bind, stands.next?, step]
      simp only [Option.bind_some, if_neg more, induction goesOn, Option.map_some]

theorem StandsIn.tokenize? (stands : cursor.StandsIn source) :
    (cursor.scanner source).tokenize? =
      some (cursor.tokenize.1, cursor.tokenize.2.scanner source) := by
  rcases cursor.drains_tokenize with ⟨steps, -, drains⟩
  exact drains.tokenize? stands

end

end Cursor

/-- No cut fails in any text, and the lexemes are those that a cursor takes. -/
theorem lex?_eq_some_lex (source : String) : lex? source = some (lex source) := by
  have start : Scanner.ofText source = (Cursor.ofText source).scanner source := rfl
  rw [lex?, start, (Cursor.standsIn_ofText source).tokenize?, Option.map_some, lex]

/-! ## Calls -/

namespace Scanner

/-- The answer to a call, and the scanner that it leaves. One lexeme is given as a
list as well. -/
def answer? (scanner : Scanner) :
    Call → Option (Except LexError (List Lexeme) × Scanner)
  | .next => scanner.next?.map fun (answer, after) =>
      (answer.map fun lexeme => [lexeme], after)
  | .tokenize => scanner.tokenize?

/-- The answers to calls that are made one after the other, each with the position
that it leaves. -/
def answers? (scanner : Scanner) :
    List Call → Option (List (Except LexError (List Lexeme) × Nat))
  | [] => some []
  | call :: later => do
      let (answer, moved) ← scanner.answer? call
      let others ← moved.answers? later
      return (answer, moved.position) :: others

end Scanner

namespace Cursor

variable {cursor : Cursor} {source : String}

theorem StandsIn.answer? (stands : cursor.StandsIn source) (call : Call) :
    (cursor.scanner source).answer? call =
      some ((cursor.answer call).1, (cursor.answer call).2.scanner source) := by
  cases call with
  | next =>
      rw [Scanner.answer?, stands.next?]
      rfl
  | tokenize => exact stands.tokenize?

theorem StandsIn.answers? (stands : cursor.StandsIn source) (calls : List Call) :
    (cursor.scanner source).answers? calls =
      some ((cursor.answers calls).map fun (answer, moved) =>
        (answer, moved.position)) := by
  induction calls generalizing cursor with
  | nil => rfl
  | cons call later induction =>
      rw [Scanner.answers?, stands.answer?]
      simp only [Option.bind_eq_bind, Option.bind_some, induction (stands.answer call)]
      rfl

end Cursor

end LineBasic
