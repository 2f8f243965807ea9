import LineBasic.Statement.Basic
import LineBasic.Expression.Printer

/-! Statements and lines as text. -/

namespace LineBasic

namespace Statement

/-- The text of a statement without a line number. -/
def text : Statement → String
  | remark text => "REM " ++ text
  | goto target => "GOTO " ++ toString target
  | print value => "PRINT " ++ value.print
  | input name => "INPUT " ++ name
  | branch condition target =>
      "IF " ++ condition.print ++ " THEN " ++ toString target
  | assign name value => "LET " ++ name ++ " = " ++ value.print

instance : ToString Statement := ⟨text⟩

end Statement

namespace Line

/-- The text of a line: its number, one blank and its statement. -/
def text (line : Line) : String :=
  toString line.number ++ " " ++ line.statement.text

instance : ToString Line := ⟨text⟩

example :
    text ⟨10, .branch (.binary (.var "X") .lt (.int 5)) 20⟩ =
      "10 IF X < 5 THEN 20" := by
  decide

end Line

end LineBasic
