import LineBasic.Expression.Lexemes
import LineBasic.Proofs.Printing.PrintedGrouping

/-! How many parentheses an expression needs.

Wherever the application of a binary operator is printed between parentheses, it
has too low a priority to stand there without. Every grouping of the expression
that fits has a pair at this place, so no lexemes that are read as the expression
have fewer. -/

namespace LineBasic

/-- The pairs that are printed around an expression in the slot if it is the
application of a binary operator. -/
def Slot.binaryPairs (slot : Slot) : Expression → Nat
  | .int _ | .var _ | .str _ | .unary _ _ => 0
  | .binary first op second => (slot.encloses (.binary first op second)).toNat

namespace Expression

/-- How many applications of a binary operator are printed between
parentheses. -/
def enclosedBinaries : Expression → Nat
  | int _ | var _ | str _ => 0
  | unary op operand =>
      (Slot.operand op).binaryPairs operand + operand.enclosedBinaries
  | binary left op right =>
      (Slot.left op).binaryPairs left + left.enclosedBinaries +
        ((Slot.right op).binaryPairs right + right.enclosedBinaries)

/-- How many applications of a unary operator are operands. All of them are printed
between parentheses. -/
def enclosedUnaries : Expression → Nat
  | int _ | var _ | str _ => 0
  | unary _ operand => operand.isUnary.toNat + operand.enclosedUnaries
  | binary left _ right =>
      left.isUnary.toNat + left.enclosedUnaries +
        (right.isUnary.toNat + right.enclosedUnaries)

/-- Whether no unary operator is applied anywhere in the expression. -/
def unaryFree : Expression → Bool
  | int _ | var _ | str _ => true
  | unary _ _ => false
  | binary left _ right => left.unaryFree && right.unaryFree

end Expression

theorem Slot.binaryPairs_eq (slot : Slot) (expression : Expression) :
    slot.binaryPairs expression = (expression.bindsBelow slot.level).toNat := by
  cases expression with
  | binary left op right =>
      rw [binaryPairs, slot.encloses_binary]
      rfl
  | _ => rfl

/-! ## Pairs of a grouping -/

namespace Grouping

/-- How many operands stand between parentheses of their own. -/
def pairs : Grouping → Nat
  | int _ | var _ | str _ => 0
  | unary _ operand => operand.pairs
  | binary left _ right => left.pairs + right.pairs
  | enclosed inner => inner.pairs + 1

theorem count_leftParen (grouping : Grouping) :
    grouping.lexemes.count (.symbol .leftParen) = grouping.pairs := by
  induction grouping with
  | int value | var name | str text => rfl
  | unary op operand induction =>
      have differs : (Lexeme.symbol op.symbol == .symbol .leftParen) = false := by
        cases op <;> rfl
      rw [lexemes, List.count_cons, differs, induction]
      rfl
  | binary left op right leftInduction rightInduction =>
      have differs : (Lexeme.symbol op.symbol == .symbol .leftParen) = false := by
        cases op <;> rfl
      rw [lexemes, List.count_append, List.count_cons, differs, leftInduction,
        rightInduction]
      rfl
  | enclosed inner induction =>
      rw [lexemes, List.count_append, List.count_cons_self, induction]
      rfl

/-- A grouping that fits has a pair wherever the application of a binary operator
is printed between parentheses, and around the whole where the whole has too low
a priority. -/
theorem enclosedBinaries_le_pairs {grouping : Grouping} {lowest : Nat}
    {expression : Expression} (fits : grouping.Fits lowest)
    (same : grouping.tree = expression.signless) :
    (expression.bindsBelow lowest).toNat + expression.enclosedBinaries ≤
      grouping.pairs := by
  induction grouping generalizing lowest expression with
  | int value | var name | str text =>
      cases expression with
      | unary op operand | binary left op right => cases same
      | _ => exact Nat.le_refl 0
  | unary op operand induction =>
      cases expression with
      | unary otherOp inner =>
          rcases Expression.unary.inj same with ⟨rfl, sameOperand⟩
          have bound := induction fits sameOperand
          have noPair : ((Expression.unary op inner).bindsBelow lowest).toNat =
              0 := rfl
          rw [noPair, Nat.zero_add, Expression.enclosedBinaries,
            Slot.binaryPairs_eq, pairs]
          exact bound
      | binary left op right => cases same
      | _ => exact Nat.zero_le _
  | binary left op right leftInduction rightInduction =>
      rcases fits with ⟨above, leftFits, -, rightFits⟩
      cases expression with
      | binary otherLeft otherOp otherRight =>
          rcases Expression.binary.inj same with ⟨sameLeft, rfl, sameRight⟩
          have leftBound := leftInduction leftFits sameLeft
          have rightBound := rightInduction rightFits sameRight
          rw [Expression.bindsBelow, decide_eq_false (Nat.not_lt_of_le above),
            Bool.toNat_false, Nat.zero_add, Expression.enclosedBinaries,
            Slot.binaryPairs_eq, Slot.binaryPairs_eq, pairs]
          exact Nat.add_le_add leftBound rightBound
      | int value =>
          rw [Expression.signless] at same
          split at same <;> cases same
      | _ => cases same
  | enclosed inner induction =>
      -- The pair itself pays for a priority that is too low.
      have bound := induction fits same
      have atMostOne := Bool.toNat_le (expression.bindsBelow lowest)
      rw [pairs]
      omega

end Grouping

/-! ## Pairs that are printed -/

namespace Expression

theorem pairs_enclosedIf (slot : Slot) (expression : Expression) :
    (Grouping.enclosedIf (slot.encloses expression) expression.grouping).pairs =
      slot.binaryPairs expression + expression.isUnary.toNat +
        expression.grouping.pairs := by
  cases expression with
  | unary op operand =>
      cases slot <;> exact Nat.add_comm _ 1
  | binary left op right =>
      have notUnary : (binary left op right).isUnary.toNat = 0 := rfl
      rw [Slot.binaryPairs, notUnary, Nat.add_zero]
      cases slot.encloses (binary left op right) with
      | true => exact Nat.add_comm _ 1
      | false => exact (Nat.zero_add _).symm
  | _ => cases slot <;> exact (Nat.zero_add _).symm

theorem pairs_grouping (expression : Expression) :
    expression.grouping.pairs =
      expression.enclosedBinaries + expression.enclosedUnaries := by
  induction expression with
  | int value =>
      rw [grouping]
      split <;> rfl
  | var name | str text => rfl
  | unary op operand induction =>
      rw [grouping, Grouping.pairs, pairs_enclosedIf, induction, enclosedBinaries,
        enclosedUnaries]
      omega
  | binary left op right leftInduction rightInduction =>
      rw [grouping, Grouping.pairs, pairs_enclosedIf, pairs_enclosedIf, leftInduction,
        rightInduction, enclosedBinaries, enclosedUnaries]
      omega

theorem enclosedUnaries_eq_zero {expression : Expression}
    (unaryFree : expression.unaryFree = true) :
    expression.isUnary.toNat + expression.enclosedUnaries = 0 := by
  induction expression with
  | int value | var name | str text => rfl
  | unary op operand => cases unaryFree
  | binary left op right leftInduction rightInduction =>
      rcases Bool.and_eq_true_iff.mp unaryFree with ⟨leftFree, rightFree⟩
      rw [enclosedUnaries, leftInduction leftFree, rightInduction rightFree]
      rfl

/-- The printed text has one opening parenthesis for each operand that is the
application of a unary operator or an enclosed application of a binary operator.
Lexemes that are read as the same tree have at least those of the binary operators.
Where no unary operator is applied these are all that the text has, so that no other
text of the tree has fewer. -/
theorem fewest_parentheses_printed {expression : Expression}
    (readable : expression.Readable) :
    ∃ printed whole, lex expression.print = .ok printed ∧
      read? printed = some whole ∧
      printed.count (.symbol .leftParen) =
        expression.enclosedBinaries + expression.enclosedUnaries ∧
      ∀ lexemes, read? lexemes = some whole →
        expression.enclosedBinaries ≤ lexemes.count (.symbol .leftParen) ∧
          (expression.unaryFree = true →
            printed.count (.symbol .leftParen) ≤
              lexemes.count (.symbol .leftParen)) := by
  have noParen : List.count (.symbol .leftParen) [Lexeme.endOfInput] = 0 := rfl
  have printedCount :
      List.count (.symbol .leftParen) (expression.grouping.lexemes ++ [.endOfInput]) =
        expression.enclosedBinaries + expression.enclosedUnaries := by
    rw [List.count_append, Grouping.count_leftParen, noParen, pairs_grouping,
      Nat.add_zero]
  refine ⟨_, _, readable.lex_print, expression.read?_grouping, printedCount, ?_⟩
  intro lexemes read
  rcases read?_eq_some_iff.mp read with ⟨grouping, fits, same, rfl⟩
  have bound : expression.enclosedBinaries ≤ grouping.pairs :=
    Nat.le_trans (Nat.le_add_left _ _)
      (Grouping.enclosedBinaries_le_pairs fits same)
  rw [List.count_append, grouping.count_leftParen, noParen]
  refine ⟨bound, ?_⟩
  intro unaryFree
  have none := enclosedUnaries_eq_zero unaryFree
  rw [printedCount]
  omega

/-- A pair around each side of a product, and none around the negative literal or
inside the string. -/
theorem fewest_parentheses_printed_product :
    let expression := binary (binary (var "a") .sub (str "(")) .mul
      (binary (int (-2)) .mod (var "b"))
    expression.Readable ∧ expression.enclosedBinaries = 2 ∧
      ∃ printed whole, lex expression.print = .ok printed ∧
        read? printed = some whole ∧
        printed.count (.symbol .leftParen) = 2 ∧
        ∀ lexemes, read? lexemes = some whole →
          2 ≤ lexemes.count (.symbol .leftParen) ∧
            printed.count (.symbol .leftParen) ≤
              lexemes.count (.symbol .leftParen) := by
  intro expression
  have readable : expression.Readable := by decide
  rcases fewest_parentheses_printed readable with
    ⟨printed, whole, cut, read, count, fewest⟩
  refine ⟨readable, rfl, printed, whole, cut, read, count, ?_⟩
  intro lexemes same
  exact ⟨(fewest lexemes same).1, (fewest lexemes same).2 rfl⟩

end Expression

end LineBasic
