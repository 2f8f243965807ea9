import LineBasic.Expression.Basic

/-! What stands at the leaves of an expression, from left to right. -/

namespace LineBasic.Expression

def ints : Expression → List Int64
  | int value => [value]
  | var _ | str _ => []
  | unary _ operand => operand.ints
  | binary left _ right => left.ints ++ right.ints

def names : Expression → List String
  | var name => [name]
  | int _ | str _ => []
  | unary _ operand => operand.names
  | binary left _ right => left.names ++ right.names

def texts : Expression → List String
  | str text => [text]
  | int _ | var _ => []
  | unary _ operand => operand.texts
  | binary left _ right => left.texts ++ right.texts

/-- The same expression with its negative literals as negations. Literals have
no sign where expressions are read; the smallest integer has no negative, so it
stays out of reach. -/
def signless : Expression → Expression
  | int value => if value < 0 then unary .neg (int (-value)) else int value
  | var name => var name
  | str text => str text
  | unary op operand => unary op operand.signless
  | binary left op right => binary left.signless op right.signless

theorem signless_eq_self {expression : Expression}
    (unsigned : ∀ value ∈ expression.ints, 0 ≤ value) :
    expression.signless = expression := by
  induction expression with
  | int value =>
      have bound := unsigned value (List.mem_singleton.mpr rfl)
      simp [signless, Int64.not_lt.mpr bound]
  | var name | str text => rfl
  | unary op operand induction =>
      rw [signless, induction unsigned]
  | binary left op right leftInduction rightInduction =>
      rw [signless,
        leftInduction fun value member =>
          unsigned value (List.mem_append_left _ member),
        rightInduction fun value member =>
          unsigned value (List.mem_append_right _ member)]

end LineBasic.Expression
