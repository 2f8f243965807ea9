import LineBasic.Operator

/-! Expression trees over 64-bit integers, variables and strings. Names and
texts are arbitrary: whether they can be written and read again is a property
of an expression and not a condition for building one. -/

namespace LineBasic

inductive Expression where
  | int (value : Int64)
  | var (name : String)
  | str (text : String)
  | unary (op : UnaryOp) (operand : Expression)
  | binary (left : Expression) (op : BinaryOp) (right : Expression)
deriving DecidableEq, Repr

namespace Expression

instance : Inhabited Expression := ⟨int 0⟩

/-- Literals and variables have no operands. -/
def isLeaf : Expression → Bool
  | int _ | var _ | str _ => true
  | unary _ _ | binary _ _ _ => false

end Expression

end LineBasic
