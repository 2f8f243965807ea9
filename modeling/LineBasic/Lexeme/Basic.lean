import LineBasic.Symbol

/-! Lexemes, the smallest pieces that a text is cut into, and the defects that
keep a text from being cut. -/

namespace LineBasic

inductive Lexeme where
  | int (value : Int64)
  | ident (name : String)
  | symbol (value : Symbol)
  | str (text : String)
  | endOfInput
deriving DecidableEq, Repr

namespace Lexeme

/-- The largest value of an integer, which has 64 bits and a sign. -/
def largestInt : Nat := 9223372036854775807

/-- How a lexeme is named in a message to the user. -/
def description : Lexeme → String
  | int value => "int literal " ++ toString value
  | ident name => "identifier '" ++ name ++ "'"
  | symbol value => "'" ++ value.spelling ++ "'"
  | str text => "string literal \"" ++ text ++ "\""
  | endOfInput => "end of input"

instance : ToString Lexeme := ⟨description⟩

end Lexeme

/-- What is wrong with a text at the place where no lexeme can be read. -/
inductive Defect where
  | unexpectedCharacter (character : Char)
  /-- The digits, all of them, stand for a number above the largest integer. -/
  | integerOverflow (digits : String)
  | unterminatedString
deriving DecidableEq, Repr

namespace Defect

def message : Defect → String
  | unexpectedCharacter character =>
      "unexpected character '" ++ character.toString ++ "'"
  | integerOverflow digits => "integer literal out of range: " ++ digits
  | unterminatedString => "unterminated string literal"

instance : ToString Defect := ⟨message⟩

end Defect

/-- A defect and where it is. The position counts the bytes before the
character, the first digit or the opening quote that the defect is about. -/
structure LexError where
  defect : Defect
  position : Nat
deriving DecidableEq, Repr

namespace LexError

def message (error : LexError) : String :=
  "lexer error at offset " ++ toString error.position ++ ": " ++
    error.defect.message

instance : ToString LexError := ⟨message⟩

/-- The same error in a text that has so many more bytes in front. -/
def shift (error : LexError) (bytes : Nat) : LexError :=
  { error with position := bytes + error.position }

end LexError

end LineBasic
