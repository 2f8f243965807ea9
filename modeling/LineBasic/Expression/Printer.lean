import LineBasic.Expression.Basic

/-! Expressions as text. An operand is put between parentheses only by the rule
of `Slot.encloses`; the text of an expression by itself is never enclosed. -/

namespace LineBasic

/-- The place of an operand under its operator. -/
inductive Slot where
  | operand (op : UnaryOp)
  | left (op : BinaryOp)
  | right (op : BinaryOp)
deriving DecidableEq, Repr

/-- Whether an expression that stands in the slot is put between parentheses.

Leaves never are, and applications of a unary operator always are. A binary
operator must not bind looser than the operator it stands under; as a right
operand it must bind tighter, since operators of one priority group to the
left. -/
def Slot.encloses : Slot → Expression → Bool
  | _, .int _ | _, .var _ | _, .str _ => false
  | _, .unary _ _ => true
  | .operand outer, .binary _ op _ => decide (op.priority < outer.priority)
  | .left outer, .binary _ op _ => decide (op.priority < outer.priority)
  | .right outer, .binary _ op _ => decide (op.priority ≤ outer.priority)

def parenthesized (needed : Bool) (text : String) : String :=
  if needed then "(" ++ text ++ ")" else text

namespace Expression

/-- The text of an expression. Strings stand between quotes as they are: the
language has no escapes. -/
def print : Expression → String
  | int value => toString value
  | var name => name
  | str text => "\"" ++ text ++ "\""
  | unary op operand =>
      op.written ++
        parenthesized ((Slot.operand op).encloses operand) operand.print
  | binary left op right =>
      parenthesized ((Slot.left op).encloses left) left.print ++ op.written ++
        parenthesized ((Slot.right op).encloses right) right.print

instance : ToString Expression := ⟨print⟩

/-- Subtraction groups to the left without parentheses and to the right with. -/
example :
    print (binary (binary (var "a") .sub (var "b")) .sub (var "c")) = "a-b-c" ∧
      print (binary (var "a") .sub (binary (var "b") .sub (var "c"))) =
        "a-(b-c)" := by
  decide

/-- Negation of truth scopes over the chain that follows it. -/
example :
    print (unary .not (binary (var "a") .and (var "b"))) = "!a & b" ∧
      print (binary (unary .not (var "a")) .and (var "b")) = "(!a) & b" := by
  decide

end Expression

end LineBasic
