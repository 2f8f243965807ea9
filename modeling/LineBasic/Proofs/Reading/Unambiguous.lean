import LineBasic.Proofs.Reading.Grouping

/-! One grouping for an expression and its lexemes.

Every lexeme but the parentheses belongs to one leaf or operator of the
expression. How many pairs stand around the lexeme tells how many stand around
that leaf or the application of that operator. -/

namespace LineBasic

/-- For each lexeme but the parentheses how many pairs stand around it. -/
def Lexeme.levels (level : Nat) : List Lexeme → List Nat
  | [] => []
  | .symbol .leftParen :: rest => levels (level + 1) rest
  | .symbol .rightParen :: rest => levels (level - 1) rest
  | _ :: rest => level :: levels level rest

/-- The leaves and operators of an expression. -/
def Expression.size : Expression → Nat
  | int _ | var _ | str _ => 1
  | unary _ operand => operand.size + 1
  | binary left _ right => left.size + right.size + 1

/-- The leaves and operators of an expression that stand before its own. -/
def Expression.lead : Expression → Nat
  | binary left _ _ => left.size
  | int _ | var _ | str _ | unary _ _ => 0

namespace Grouping

def levels (level : Nat) : Grouping → List Nat
  | int _ | var _ | str _ => [level]
  | unary _ operand => level :: operand.levels level
  | binary left _ right => left.levels level ++ level :: right.levels level
  | enclosed inner => inner.levels (level + 1)

/-- The pairs around the whole grouping. -/
def depth : Grouping → Nat
  | int _ | var _ | str _ | unary _ _ | binary _ _ _ => 0
  | enclosed inner => inner.depth + 1

theorem levels_lexemes (grouping : Grouping) (level : Nat) (rest : List Lexeme) :
    Lexeme.levels level (grouping.lexemes ++ rest) =
      grouping.levels level ++ Lexeme.levels level rest := by
  induction grouping generalizing level rest with
  | int value | var name | str text => rfl
  | unary op operand induction =>
      rw [levels, List.cons_append, ← induction]
      cases op <;> rfl
  | binary left op right leftInduction rightInduction =>
      rw [lexemes, List.append_assoc, leftInduction, levels, List.append_assoc,
        List.cons_append, List.cons_append, ← rightInduction]
      cases op <;> rfl
  | enclosed inner induction =>
      rw [lexemes, List.append_assoc, List.cons_append, Lexeme.levels, induction]
      rfl

theorem length_levels (grouping : Grouping) (level : Nat) :
    (grouping.levels level).length = grouping.tree.size := by
  induction grouping generalizing level with
  | int value | var name | str text => rfl
  | unary op operand induction => simp [levels, tree, Expression.size, induction]
  | binary left op right leftInduction rightInduction =>
      simp [levels, tree, Expression.size, leftInduction, rightInduction,
        Nat.add_assoc]
  | enclosed inner induction => exact induction (level + 1)

theorem levels_lead (grouping : Grouping) (level : Nat) :
    (grouping.levels level)[grouping.tree.lead]? =
      some (level + grouping.depth) := by
  induction grouping generalizing level with
  | int value | var name | str text | unary op operand => rfl
  | binary left op right =>
      rw [levels, tree, Expression.lead, ← left.length_levels level]
      simp [depth]
  | enclosed inner induction =>
      rw [levels, tree, induction, depth, Nat.add_assoc, Nat.add_comm 1]

theorem depth_eq {first second : Grouping} {level : Nat}
    (sameTree : first.tree = second.tree)
    (sameLevels : first.levels level = second.levels level) :
    first.depth = second.depth := by
  have lead := first.levels_lead level
  rw [sameTree, sameLevels, second.levels_lead level] at lead
  exact (Nat.add_left_cancel (Option.some.inj lead)).symm

theorem eq_of_levels_eq {first second : Grouping} (level : Nat)
    (sameTree : first.tree = second.tree)
    (sameLevels : first.levels level = second.levels level) :
    first = second := by
  have sameDepth := depth_eq sameTree sameLevels
  induction first generalizing second level with
  | int value | var name | str text =>
      cases second <;> simp_all [tree, depth]
  | unary op operand induction =>
      cases second with
      | unary otherOp other =>
          rcases Expression.unary.inj sameTree with ⟨rfl, operandTree⟩
          have operandLevels := (List.cons.inj sameLevels).2
          rw [induction level operandTree operandLevels
            (depth_eq operandTree operandLevels)]
      | enclosed inner => cases sameDepth
      | _ => cases sameTree
  | binary left op right leftInduction rightInduction =>
      cases second with
      | binary otherLeft otherOp otherRight =>
          rcases Expression.binary.inj sameTree with ⟨leftTree, rfl, rightTree⟩
          have sameLength : (left.levels level).length =
              (otherLeft.levels level).length := by
            rw [length_levels, length_levels, leftTree]
          rcases List.append_inj sameLevels sameLength with ⟨leftLevels, behind⟩
          have rightLevels := (List.cons.inj behind).2
          rw [leftInduction level leftTree leftLevels (depth_eq leftTree leftLevels),
            rightInduction level rightTree rightLevels
              (depth_eq rightTree rightLevels)]
      | enclosed inner => cases sameDepth
      | _ => cases sameTree
  | enclosed inner induction =>
      cases second with
      | enclosed other =>
          have innerTree : inner.tree = other.tree := sameTree
          have innerLevels : inner.levels (level + 1) =
              other.levels (level + 1) := sameLevels
          rw [induction (level + 1) innerTree innerLevels
            (depth_eq innerTree innerLevels)]
      | _ => cases sameDepth

/-- The lexemes and the expression leave no choice of the grouping. -/
theorem eq_of_tree_eq_of_lexemes_eq {first second : Grouping}
    (sameTree : first.tree = second.tree)
    (sameLexemes : first.lexemes = second.lexemes) : first = second := by
  apply eq_of_levels_eq 0 sameTree
  have firstLevels := first.levels_lexemes 0 []
  rw [sameLexemes, second.levels_lexemes 0 []] at firstLevels
  exact (List.append_cancel_right firstLevels).symm

end Grouping

end LineBasic
