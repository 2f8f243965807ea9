import LineBasic.Expression.Basic

/-! Statements and the numbered lines that carry them. -/

namespace LineBasic

/-- The number that orders a line and that jumps refer to. -/
abbrev LineNumber := UInt32

inductive Statement where
  | remark (text : String)
  | goto (target : LineNumber)
  | print (value : Expression)
  | input (name : String)
  | branch (condition : Expression) (target : LineNumber)
  | assign (name : String) (value : Expression)
deriving DecidableEq, Repr

namespace Statement

instance : Inhabited Statement := ⟨remark ""⟩

/-- The word that a statement begins with. -/
def keyword : Statement → String
  | remark _ => "REM"
  | goto _ => "GOTO"
  | print _ => "PRINT"
  | input _ => "INPUT"
  | branch _ _ => "IF"
  | assign _ _ => "LET"

/-- The line to which the statement may pass control, other than the next. -/
def jumpTarget? : Statement → Option LineNumber
  | goto target | branch _ target => some target
  | remark _ | print _ | input _ | assign _ _ => none

end Statement

structure Line where
  number : LineNumber
  statement : Statement
deriving DecidableEq, Repr, Inhabited

end LineBasic
