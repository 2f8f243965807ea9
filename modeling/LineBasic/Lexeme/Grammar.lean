import LineBasic.Lexeme.Basic
import LineBasic.Text

/-! Which texts spell which lexemes, said without a scanner. -/

namespace LineBasic

/-- A text that stands for one lexeme and nothing else. The end marker has no
spelling. -/
inductive Lexeme.Spelled : Lexeme → List Char → Prop
  | int {digits : List Char} (nonempty : digits ≠ [])
      (decimal : ∀ digit ∈ digits, digit.isDigit = true)
      (inRange : Nat.ofDigitChars 10 digits 0 ≤ largestInt) :
      Spelled (int (Int64.ofNat (Nat.ofDigitChars 10 digits 0))) digits
  | ident {name : String} (shaped : isName name = true) :
      Spelled (ident name) name.toList
  | symbol (value : Symbol) : Spelled (symbol value) value.spelling.toList
  | str {text : String} (unquoted : '"' ∉ text.toList) :
      Spelled (str text) ('"' :: text.toList ++ ['"'])

/-- Whether a lexeme would be read on over a character that follows it. -/
def Lexeme.readsOn : Lexeme → Char → Bool
  | int _, next => next.isDigit
  | ident _, next => isNameTail next
  | symbol .less, next => next = '=' || next = '>'
  | symbol .greater, next => next = '='
  | symbol _, _ | str _, _ | endOfInput, _ => false

/-- A text made of blanks and the spellings of some lexemes in order, and a
rest behind it that begins with no blank. Where two spellings meet, or the last
one meets the rest, the first is not read on into what follows. -/
inductive Spelling : List Lexeme → List Char → List Char → Prop
  | rest {rest : List Char} (inked : ∀ next ∈ rest.head?, isBlank next = false) :
      Spelling [] rest rest
  | blank {lexemes : List Lexeme} {first : Char} {text rest : List Char}
      (skipped : isBlank first = true) (behind : Spelling lexemes text rest) :
      Spelling lexemes (first :: text) rest
  | lexeme {first : Lexeme} {lexemes : List Lexeme}
      {spelling text rest : List Char} (spelled : first.Spelled spelling)
      (apart : ∀ next ∈ text.head?, first.readsOn next = false)
      (behind : Spelling lexemes text rest) :
      Spelling (first :: lexemes) (spelling ++ text) rest

end LineBasic
