import LineBasic.Symbol

/-! Unary and binary operators: their groups, their binding priority and the
symbols that spell them. A higher priority binds tighter. -/

namespace LineBasic

inductive UnaryOp where
  | neg
  | not
deriving DecidableEq, Repr

namespace UnaryOp

def all : List UnaryOp := [neg, not]

def priority : UnaryOp → Nat
  | neg => 7
  | not => 1

def symbol : UnaryOp → Symbol
  | neg => .minus
  | not => .bang

/-- The text of the operator, written directly before its operand. -/
def written (op : UnaryOp) : String := op.symbol.spelling

instance : ToString UnaryOp := ⟨written⟩

theorem mem_all (op : UnaryOp) : op ∈ all := by
  cases op <;> decide

end UnaryOp

inductive BinaryOp where
  | add
  | sub
  | mul
  | div
  | mod
  | eq
  | lt
  | le
  | gt
  | ge
  | ne
  | and
  | or
deriving DecidableEq, Repr

namespace BinaryOp

def all : List BinaryOp :=
  [add, sub, mul, div, mod, eq, lt, le, gt, ge, ne, and, or]

def isComparison : BinaryOp → Bool
  | eq | lt | le | gt | ge | ne => true
  | _ => false

def isLogical : BinaryOp → Bool
  | and | or => true
  | _ => false

/-- The remainder binds more loosely than a sum, and the two logical operators
share the lowest priority. -/
def priority : BinaryOp → Nat
  | mul | div => 6
  | add | sub => 5
  | mod => 4
  | eq | lt | le | gt | ge | ne => 3
  | and | or => 2

def symbol : BinaryOp → Symbol
  | add => .plus
  | sub => .minus
  | mul => .star
  | div => .slash
  | mod => .percent
  | eq => .equal
  | lt => .less
  | le => .lessEqual
  | gt => .greater
  | ge => .greaterEqual
  | ne => .notEqual
  | and => .ampersand
  | or => .bar

/-- The text of the operator between its operands: comparisons and logical
operators stand between blanks, arithmetic is written tight. -/
def written (op : BinaryOp) : String :=
  if op.isComparison || op.isLogical then " " ++ op.symbol.spelling ++ " "
  else op.symbol.spelling

instance : ToString BinaryOp := ⟨fun op => op.symbol.spelling⟩

theorem mem_all (op : BinaryOp) : op ∈ all := by
  cases op <;> decide

/-- Truth negation binds looser than every binary operator. -/
theorem not_priority_lt (op : BinaryOp) :
    UnaryOp.not.priority < op.priority := by
  cases op <;> decide

/-- The sign binds tighter than every binary operator. -/
theorem priority_lt_neg (op : BinaryOp) :
    op.priority < UnaryOp.neg.priority := by
  cases op <;> decide

end BinaryOp

namespace Symbol

/-- The binary operator that a symbol spells. -/
def binaryOp? (symbol : Symbol) : Option BinaryOp :=
  BinaryOp.all.find? fun op => op.symbol = symbol

/-- The unary operator that a symbol spells. -/
def unaryOp? (symbol : Symbol) : Option UnaryOp :=
  UnaryOp.all.find? fun op => op.symbol = symbol

theorem binaryOp?_eq_some_iff {symbol : Symbol} {op : BinaryOp} :
    symbol.binaryOp? = some op ↔ op.symbol = symbol := by
  cases symbol <;> cases op <;> decide

theorem unaryOp?_eq_some_iff {symbol : Symbol} {op : UnaryOp} :
    symbol.unaryOp? = some op ↔ op.symbol = symbol := by
  cases symbol <;> cases op <;> decide

end Symbol

end LineBasic
