import LineBasic.Expression.Basic
import LineBasic.Lexeme.Basic

/-! Expressions read from lexemes by the priorities of the operators.

A chain is an operand followed by binary operators with their right operands.
An operator of priority `p` takes as its right operand a chain of operators
above `p`, so that operators of one priority group to the left. A minus sign in
front of an operand takes that operand alone; an exclamation mark takes the
whole chain behind it. -/

namespace LineBasic

/-- The binary operator by which a lexeme continues a chain whose operators
have at least the lowest priority. -/
def Lexeme.continues? (lowest : Nat) : Lexeme → Option BinaryOp
  | symbol value => value.binaryOp?.filter fun op => lowest ≤ op.priority
  | int _ | ident _ | str _ | endOfInput => none

namespace Expression

/-- An expression read from the head of an input, and the shorter input that is
left. -/
abbrev Reading (input : List Lexeme) :=
  Expression × { rest : List Lexeme // rest.length < input.length }

mutual

/-- Reads a chain of operators of at least the lowest priority, as far as it
goes. -/
def chain (lowest : Nat) (input : List Lexeme) : Option (Reading input) :=
  match operand input with
  | none => none
  | some (first, ⟨rest, shorter⟩) =>
      match climb lowest first rest with
      | none => none
      | some (whole, ⟨rest, noLonger⟩) =>
          some (whole, ⟨rest, Nat.lt_of_le_of_lt noLonger shorter⟩)
termination_by (input.length, 1)

/-- Reads the operators of a chain and their right operands behind what has
been read of it. -/
def climb (lowest : Nat) (left : Expression) (input : List Lexeme) :
    Option (Expression × { rest : List Lexeme // rest.length ≤ input.length }) :=
  match input with
  | [] => some (left, ⟨[], Nat.le_refl _⟩)
  | head :: tail =>
      match head.continues? lowest with
      | none => some (left, ⟨head :: tail, Nat.le_refl _⟩)
      | some op =>
          match chain (op.priority + 1) tail with
          | none => none
          | some (right, ⟨rest, shorter⟩) =>
              match climb lowest (binary left op right) rest with
              | none => none
              | some (whole, ⟨rest, noLonger⟩) =>
                  some (whole, ⟨rest, by simp only [List.length_cons]; omega⟩)
termination_by (input.length, 0)

/-- Reads a literal, a name, an enclosed chain or an application of a unary
operator. -/
def operand (input : List Lexeme) : Option (Reading input) :=
  match input with
  | .int value :: rest => some (int value, ⟨rest, Nat.lt_succ_self _⟩)
  | .ident name :: rest => some (var name, ⟨rest, Nat.lt_succ_self _⟩)
  | .str text :: rest => some (str text, ⟨rest, Nat.lt_succ_self _⟩)
  | .symbol .leftParen :: tail =>
      match chain 0 tail with
      | some (inner, ⟨.symbol .rightParen :: rest, shorter⟩) =>
          some (inner, ⟨rest, by simp only [List.length_cons] at *; omega⟩)
      | _ => none
  | .symbol .minus :: tail =>
      match operand tail with
      | none => none
      | some (inner, ⟨rest, shorter⟩) =>
          some (unary .neg inner, ⟨rest, Nat.lt_succ_of_lt shorter⟩)
  | .symbol .bang :: tail =>
      match chain 1 tail with
      | none => none
      | some (inner, ⟨rest, shorter⟩) =>
          some (unary .not inner, ⟨rest, Nat.lt_succ_of_lt shorter⟩)
  | _ => none
termination_by (input.length, 0)

end

/-- The expression that the lexemes of a whole text stand for. -/
def read? (lexemes : List Lexeme) : Option Expression :=
  match chain 0 lexemes with
  | some (whole, ⟨[.endOfInput], _⟩) => some whole
  | _ => none

end Expression

end LineBasic
