import LineBasic.Expression.Basic
import LineBasic.Lexeme.Basic

/-! The lexemes of an expression, told from the tree without writing a text.
The rule for parentheses is given here by cases on the operators. -/

namespace LineBasic.Expression

def isUnary : Expression → Bool
  | unary _ _ => true
  | _ => false

/-- Applications of a binary operator of a priority below the given one. -/
def bindsBelow (priority : Nat) : Expression → Bool
  | binary _ op _ => decide (op.priority < priority)
  | _ => false

/-- Puts one pair of parentheses around the lexemes if it is needed. -/
def enclosed (needed : Bool) (lexemes : List Lexeme) : List Lexeme :=
  if needed then .symbol .leftParen :: lexemes ++ [.symbol .rightParen]
  else lexemes

/-- The lexemes of an expression, without an end marker. Negation encloses all
but leaves; a left operand may have the priority of its operator, a right
operand must be above it. -/
def lexemes : Expression → List Lexeme
  | int value =>
      if value < 0 then [.symbol .minus, .int (-value)] else [.int value]
  | var name => [.ident name]
  | str text => [.str text]
  | unary .neg operand =>
      .symbol .minus :: enclosed (!operand.isLeaf) operand.lexemes
  | unary .not operand =>
      .symbol .bang :: enclosed operand.isUnary operand.lexemes
  | binary left op right =>
      enclosed (left.isUnary || left.bindsBelow op.priority) left.lexemes ++
        .symbol op.symbol ::
          enclosed (right.isUnary || right.bindsBelow (op.priority + 1))
            right.lexemes

end LineBasic.Expression
