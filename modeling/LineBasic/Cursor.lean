import LineBasic.Lexeme.Scan

/-! A cursor over a text, from which lexemes are taken one at a time or all at
once. A defect leaves the cursor where reading stopped, and reading can go on
from there. A cursor has the unread characters at hand; a scanner gives the same
answers from the whole text and a byte offset. -/

namespace LineBasic

/-- A place in a text: how many bytes lie before it, and what lies behind. -/
structure Cursor where
  position : Nat
  unread : List Char
deriving DecidableEq, Repr

namespace Cursor

/-- The cursor at the start of a text. -/
def ofText (source : String) : Cursor := ⟨0, source.toList⟩

/-- The unread part of the text. -/
def remaining (cursor : Cursor) : String := String.ofList cursor.unread

/-- The number of bytes in the whole text, read and unread. -/
def length (cursor : Cursor) : Nat :=
  cursor.position + byteLength cursor.unread

/-- Whether the whole text is empty. -/
def isEmpty (cursor : Cursor) : Bool := cursor.length = 0

/-- Whether nothing is left, not even blanks. -/
def atEnd (cursor : Cursor) : Bool := cursor.unread.isEmpty

/-- A new text that starts here. -/
def rebase (cursor : Cursor) : Cursor := { cursor with position := 0 }

def skipBlanks (cursor : Cursor) : Cursor where
  position := cursor.position + byteLength (cursor.unread.takeWhile isBlank)
  unread := cursor.unread.dropWhile isBlank

/-- Skips blanks and takes one lexeme. At the end of the text this is the end
marker, every time. -/
def next (cursor : Cursor) : Except LexError Lexeme × Cursor :=
  let start := cursor.skipBlanks
  let scan := Scan.ofText start.unread
  (scan.outcome.mapError fun defect => ⟨defect, start.position⟩,
    { position := start.position + byteLength scan.consumed
      unread := scan.rest })

theorem next_unread_length_lt {cursor after : Cursor} {lexeme : Lexeme}
    (step : cursor.next = (.ok lexeme, after)) (more : lexeme ≠ .endOfInput) :
    after.unread.length < cursor.unread.length := by
  injection step with outcome state
  subst state
  have skipped := (List.dropWhile_suffix isBlank (l := cursor.unread)).length_le
  have read := Scan.outcome_eq_ok outcome
  exact Nat.lt_of_lt_of_le (Scan.rest_length_lt read more) skipped

/-- Takes all lexemes up to and with the end marker, or stops at the first
defect. -/
def tokenize (cursor : Cursor) : Except LexError (List Lexeme) × Cursor :=
  match _ : cursor.next with
  | (.error error, after) => (.error error, after)
  | (.ok lexeme, after) =>
      if _ : lexeme = .endOfInput then (.ok [.endOfInput], after)
      else
        let (lexemes, final) := after.tokenize
        (lexemes.map (lexeme :: ·), final)
termination_by cursor.unread.length
decreasing_by exact next_unread_length_lt ‹_› ‹_›

end Cursor

/-- All lexemes of a text. -/
def lex (source : String) : Except LexError (List Lexeme) :=
  (Cursor.ofText source).tokenize.1

end LineBasic
