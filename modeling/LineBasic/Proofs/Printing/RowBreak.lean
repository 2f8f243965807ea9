import LineBasic.Program.Basic
import LineBasic.Proofs.Lexing.Concatenation

/-! How far a listing is cut into lexemes.

The break between two rows is no blank and begins no lexeme. A listing of two rows or
more is therefore cut no further than its first row, unless that row leaves a string
open, which takes in the break. -/

namespace LineBasic

theorem detached_lineBreak (text : String) : Detached ("\n" ++ text).toList := by
  intro next member lexeme
  rw [String.toList_append] at member
  have same : '\n' = next := Option.some.inj member
  subst same
  exact lexeme.readsOn_of_not_isNameTail (by decide) (by decide) (by decide)

theorem lex_lineBreak (text : String) :
    lex ("\n" ++ text) = .error ⟨.unexpectedCharacter '\n', 0⟩ := by
  have whole : ("\n" ++ text).toList = [] ++ ([] ++ '\n' :: text.toList) :=
    String.toList_append
  have heads : (Defect.unexpectedCharacter '\n').Heads [] ('\n' :: text.toList) :=
    .unexpectedCharacter (by decide) (by decide) (by decide) (by decide) (by decide)
  have spelling : Spelling [] ("\n" ++ text).toList ([] ++ '\n' :: text.toList) := by
    rw [whole]
    exact .rest heads.inked
  exact lex_eq_error_of_spelling whole spelling heads

namespace Program

/-! ## Rows of a listing -/

theorem listing_cons_cons (first second : Line) (others : List Line) :
    (ofList (first :: second :: others)).listing =
      first.text ++ ("\n" ++ (ofList (second :: others)).listing) := by
  simp [listing, ofList, String.append_assoc]

/-- What stands in a listing stands in a row of it or breaks two rows. -/
theorem exists_mem_text_of_mem_listing {lines : List Line} {character : Char}
    (member : character ∈ (ofList lines).listing.toList)
    (inRow : character ≠ '\n') : ∃ line ∈ lines, character ∈ line.text.toList := by
  induction lines with
  | nil => simp [listing, ofList] at member
  | cons first others induction =>
      cases others with
      | nil => exact ⟨first, List.mem_cons_self, by simpa [listing, ofList] using member⟩
      | cons second others =>
          rw [listing_cons_cons, String.toList_append, String.toList_append] at member
          rcases List.mem_append.mp member with inFirst | behind
          · exact ⟨first, List.mem_cons_self, inFirst⟩
          · have inOthers := (List.mem_append.mp behind).resolve_left fun inBreak =>
              inRow (List.mem_singleton.mp inBreak)
            rcases induction inOthers with ⟨line, listed, inLine⟩
            exact ⟨line, List.mem_cons_of_mem first listed, inLine⟩

/-! ## The first row and the break behind it -/

/-- A listing of two rows or more fails at the end of its first row if that row is cut
into lexemes. An error in the first row is the error of the listing, unless the row
leaves a string open. -/
theorem lex_listing_of_first_row {program : Program} {first second : Line}
    {others : List Line} (rows : program.lines = first :: second :: others) :
    (∀ lexemes, lex first.text = .ok lexemes →
      lex program.listing =
        .error ⟨.unexpectedCharacter '\n', first.text.utf8ByteSize⟩) ∧
    ∀ error, lex first.text = .error error → error.defect ≠ .unterminatedString →
      lex program.listing = .error error := by
  have listed : program.listing =
      first.text ++ ("\n" ++ (ofList (second :: others)).listing) := by
    rw [← listing_cons_cons, ofList, ← rows]
  have detached := detached_lineBreak (ofList (second :: others)).listing
  rw [listed]
  constructor
  · intro lexemes cut
    exact lex_append_of_ok detached cut (lex_lineBreak _)
  · intro error failed closed
    exact lex_append_of_error detached failed closed

/-- A remark that quotes a character of two bytes and ends with a blank, in front of an
open string; a literal that cannot be read; a name that is none. -/
theorem lex_listing_of_first_row_remark :
    lex (ofList [⟨10, .remark "\"é\" "⟩, ⟨20, .remark "\""⟩]).listing =
        .error ⟨.unexpectedCharacter '\n', 12⟩ ∧
      lex (ofList [⟨10, .print (.int Int64.minValue)⟩, ⟨10, .goto 10⟩]).listing =
        .error ⟨.integerOverflow "9223372036854775808", 10⟩ ∧
      lex (ofList [⟨10, .input "é"⟩, ⟨5, .goto 10⟩, ⟨5, .remark ""⟩]).listing =
        .error ⟨.unexpectedCharacter 'é', 9⟩ := by
  have remark : lex (Line.text ⟨10, .remark "\"é\" "⟩) =
      .ok [.int 10, .ident "REM", .str "é", .endOfInput] := by
    decide +kernel
  have size : (Line.text ⟨10, .remark "\"é\" "⟩).utf8ByteSize = 12 := by
    decide +kernel
  have large : lex (Line.text ⟨10, .print (.int Int64.minValue)⟩) =
      .error ⟨.integerOverflow "9223372036854775808", 10⟩ := by
    decide +kernel
  have foreign : lex (Line.text ⟨10, .input "é"⟩) =
      .error ⟨.unexpectedCharacter 'é', 9⟩ := by
    decide +kernel
  have broken := (@lex_listing_of_first_row (ofList _) _ ⟨20, .remark "\""⟩ [] rfl).1
    _ remark
  rw [size] at broken
  exact ⟨broken, (lex_listing_of_first_row rfl).2 _ large nofun,
    (lex_listing_of_first_row rfl).2 _ foreign nofun⟩

/-- If a listing of two rows or more is cut into lexemes, its first row leaves a string
open, and there is a quote in another row. -/
theorem exists_open_row_of_lex_listing {first second : Line} {others : List Line}
    {lexemes : List Lexeme}
    (cut : lex (ofList (first :: second :: others)).listing = .ok lexemes) :
    (∃ position, lex first.text = .error ⟨.unterminatedString, position⟩) ∧
      ∃ line ∈ second :: others, '"' ∈ line.text.toList := by
  rw [listing_cons_cons] at cut
  rcases exists_open_of_lex_append (detached_lineBreak _) (lex_lineBreak _) cut with
    ⟨position, opened, quoted⟩
  rw [String.toList_append] at quoted
  have inOthers := (List.mem_append.mp quoted).resolve_left (by decide)
  exact ⟨⟨position, opened⟩, exists_mem_text_of_mem_listing inOthers (by decide)⟩

/-- The string runs from the end of the first row to the end of the second. -/
example : lex (ofList [⟨10, .remark "\""⟩, ⟨20, .remark "\""⟩]).listing =
    .ok [.int 10, .ident "REM", .str "\n20 REM ", .endOfInput] := by
  decide +kernel

end Program

end LineBasic
