import LineBasic.Expression.Lexemes
import LineBasic.Statement.Basic

/-! The lexemes of statements and lines. A remark has none of its own: its
words are free text. -/

namespace LineBasic

def LineNumber.lexeme (number : LineNumber) : Lexeme :=
  .int (Int64.ofNat number.toNat)

/-- The lexemes behind the keyword, for every statement but a remark. -/
def Statement.lexemes? : Statement → Option (List Lexeme)
  | remark _ => none
  | goto target => some [target.lexeme]
  | print value => some value.lexemes
  | input name => some [.ident name]
  | branch condition target =>
      some (condition.lexemes ++ [.ident "THEN", target.lexeme])
  | assign name value => some (.ident name :: .symbol .equal :: value.lexemes)

/-- The lexemes of a line, up to and with the end marker. -/
def Line.lexemes? (line : Line) : Option (List Lexeme) :=
  line.statement.lexemes?.map fun behind =>
    line.number.lexeme :: .ident line.statement.keyword :: behind ++
      [.endOfInput]

end LineBasic
