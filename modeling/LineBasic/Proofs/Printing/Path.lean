import LineBasic.Proofs.Printing.PrintedGrouping

/-! An operand and what is printed around it.

A path leads from a whole expression down to one of its operands. The text
around the operand is what is left of the printed text without the operand and
without its own parentheses; any grouping may be put in its place. -/

namespace LineBasic

/-- The way from a whole expression down to one of its operands. -/
inductive Path where
  | root
  | under (outer : Path) (op : UnaryOp)
  | leftOf (outer : Path) (op : BinaryOp) (right : Expression)
  | rightOf (outer : Path) (left : Expression) (op : BinaryOp)

namespace Path

open Grouping (enclosedIf)

/-- The whole expression with the given operand at the end of the path. -/
def fill : Path → Expression → Expression
  | root, node => node
  | under outer op, node => outer.fill (.unary op node)
  | leftOf outer op right, node => outer.fill (.binary node op right)
  | rightOf outer left op, node => outer.fill (.binary left op node)

def slot? : Path → Option Slot
  | root => none
  | under _ op => some (.operand op)
  | leftOf _ op _ => some (.left op)
  | rightOf _ _ op => some (.right op)

/-- Whether the operand is printed between parentheses of its own. -/
def encloses (path : Path) (node : Expression) : Bool :=
  path.slot?.any fun slot => slot.encloses node

/-- The lowest priority of an operand that stands there as it is. -/
def level (path : Path) : Nat := path.slot?.elim 0 Slot.level

/-! ## The text around an operand -/

def opening (needed : Bool) : String := if needed then "(" else ""

def closing (needed : Bool) : String := if needed then ")" else ""

/-- What is printed in front of the operand and its parentheses. -/
def before : Path → Expression → String
  | root, _ => ""
  | under outer op, node =>
      outer.before (.unary op node) ++
        opening (outer.encloses (.unary op node)) ++ op.written
  | leftOf outer op right, node =>
      outer.before (.binary node op right) ++
        opening (outer.encloses (.binary node op right))
  | rightOf outer left op, node =>
      outer.before (.binary left op node) ++
        opening (outer.encloses (.binary left op node)) ++
        parenthesized ((Slot.left op).encloses left) left.print ++ op.written

/-- What is printed behind the operand and its parentheses. -/
def after : Path → Expression → String
  | root, _ => ""
  | under outer op, node =>
      closing (outer.encloses (.unary op node)) ++ outer.after (.unary op node)
  | leftOf outer op right, node =>
      op.written ++ parenthesized ((Slot.right op).encloses right) right.print ++
        closing (outer.encloses (.binary node op right)) ++
        outer.after (.binary node op right)
  | rightOf outer left op, node =>
      closing (outer.encloses (.binary left op node)) ++
        outer.after (.binary left op node)

theorem parenthesized_eq (needed : Bool) (text : String) :
    parenthesized needed text = opening needed ++ text ++ closing needed := by
  cases needed
  · simp [parenthesized, opening, closing]
  · rfl

theorem print_fill (path : Path) (node : Expression) :
    (path.fill node).print =
      path.before node ++ parenthesized (path.encloses node) node.print ++
        path.after node := by
  induction path generalizing node with
  | root => simp [fill, before, after, encloses, slot?, parenthesized]
  | under outer op induction =>
      rw [fill, induction]
      simp [before, after, encloses, slot?, Expression.print, parenthesized_eq,
        String.append_assoc]
  | leftOf outer op right induction =>
      rw [fill, induction]
      simp [before, after, encloses, slot?, Expression.print, parenthesized_eq,
        String.append_assoc]
  | rightOf outer left op induction =>
      rw [fill, induction]
      simp [before, after, encloses, slot?, Expression.print, parenthesized_eq,
        String.append_assoc]

/-- The text has a pair around the operand exactly if the rule of its place asks for
one. -/
theorem print_fill_eq_iff (path : Path) (node : Expression) :
    (path.fill node).print =
        path.before node ++ "(" ++ node.print ++ ")" ++ path.after node ↔
      path.encloses node = true := by
  rw [print_fill]
  cases path.encloses node with
  | true => simp [parenthesized, String.append_assoc]
  | false =>
      apply iff_of_false _ Bool.false_ne_true
      intro same
      have sizes := congrArg String.utf8ByteSize same
      have leftSize : "(".utf8ByteSize = 1 := rfl
      simp only [parenthesized, String.utf8ByteSize_append, Bool.false_eq_true,
        if_false, leftSize] at sizes
      omega

/-! ## The grouping around an operand -/

/-- The printed grouping of the whole expression, but for the operand, which is
grouped as given and has no parentheses of its own. -/
def group : Path → Expression → Grouping → Grouping
  | root, _, hole => hole
  | under outer op, node, hole =>
      outer.group (.unary op node)
        (enclosedIf (outer.encloses (.unary op node)) (.unary op hole))
  | leftOf outer op right, node, hole =>
      outer.group (.binary node op right)
        (enclosedIf (outer.encloses (.binary node op right))
          (.binary hole op
            (enclosedIf ((Slot.right op).encloses right) right.grouping)))
  | rightOf outer left op, node, hole =>
      outer.group (.binary left op node)
        (enclosedIf (outer.encloses (.binary left op node))
          (.binary (enclosedIf ((Slot.left op).encloses left) left.grouping) op
            hole))

theorem group_tree {path : Path} {node : Expression} {hole : Grouping}
    (same : hole.tree = node.signless) :
    (path.group node hole).tree = (path.fill node).signless := by
  induction path generalizing node hole with
  | root => exact same
  | under outer op induction =>
      apply induction
      rw [Grouping.enclosedIf_tree, Grouping.tree, same, Expression.signless]
  | leftOf outer op right induction =>
      apply induction
      rw [Grouping.enclosedIf_tree, Grouping.tree, same,
        Grouping.enclosedIf_tree, right.grouping_tree, Expression.signless]
  | rightOf outer left op induction =>
      apply induction
      rw [Grouping.enclosedIf_tree, Grouping.tree, same,
        Grouping.enclosedIf_tree, left.grouping_tree, Expression.signless]

theorem mem_ints_fill (path : Path) {node : Expression} {value : Int64}
    (member : value ∈ node.ints) : value ∈ (path.fill node).ints := by
  induction path generalizing node with
  | root => exact member
  | under outer op induction => exact induction member
  | leftOf outer op right induction =>
      apply induction
      exact List.mem_append_left _ member
  | rightOf outer left op induction =>
      apply induction
      exact List.mem_append_right _ member

theorem group_text {path : Path} {node : Expression}
    (readable : ∀ value ∈ (path.fill node).ints, Int64.minValue < value)
    (hole : Grouping) :
    (path.group node hole).text =
      path.before node ++ hole.text ++ path.after node := by
  induction path generalizing node hole with
  | root => simp [group, before, after]
  | under outer op induction =>
      rw [group, induction readable, Grouping.enclosedIf_text]
      simp [before, after, Grouping.text, parenthesized_eq, String.append_assoc]
  | leftOf outer op right induction =>
      have rightReadable : ∀ value ∈ right.ints, Int64.minValue < value := by
        intro value member
        have inNode : value ∈ (Expression.binary node op right).ints :=
          List.mem_append_right _ member
        exact readable value (outer.mem_ints_fill inNode)
      rw [group, induction readable, Grouping.enclosedIf_text]
      simp [before, after, Grouping.text, Grouping.enclosedIf_text,
        Expression.grouping_text rightReadable, parenthesized_eq,
        String.append_assoc]
  | rightOf outer left op induction =>
      have leftReadable : ∀ value ∈ left.ints, Int64.minValue < value := by
        intro value member
        have inNode : value ∈ (Expression.binary left op node).ints :=
          List.mem_append_left _ member
        exact readable value (outer.mem_ints_fill inNode)
      rw [group, induction readable, Grouping.enclosedIf_text]
      simp [before, after, Grouping.text, Grouping.enclosedIf_text,
        Expression.grouping_text leftReadable, parenthesized_eq,
        String.append_assoc]

/-! ## What fits at the end of a path -/

theorem encloses_binary (path : Path) (left : Expression) (op : BinaryOp)
    (right : Expression) :
    path.encloses (.binary left op right) = decide (op.priority < path.level) := by
  cases path with
  | root => rfl
  | under outer above => exact Slot.encloses_binary (.operand above) left op right
  | leftOf outer above beside =>
      exact Slot.encloses_binary (.left above) left op right
  | rightOf outer beside above =>
      exact Slot.encloses_binary (.right above) left op right

theorem fits_of_enclosedIf {needed : Bool} {lowest : Nat} {inner : Grouping}
    (fits : (enclosedIf needed inner).Fits lowest) : inner.Fits 0 := by
  cases needed with
  | true => exact fits
  | false => exact fits.mono (Nat.zero_le lowest)

/-- Where the whole grouping fits, the operand fits in its place. -/
theorem fits_hole {path : Path} {node : Expression} {hole : Grouping}
    (fits : (path.group node hole).Fits 0) : hole.Fits path.level := by
  induction path generalizing node hole with
  | root => exact fits
  | under outer op induction =>
      exact fits_of_enclosedIf (induction fits)
  | leftOf outer op right induction =>
      exact (fits_of_enclosedIf (induction fits)).2.1
  | rightOf outer left op induction =>
      exact (fits_of_enclosedIf (induction fits)).2.2.2

end Path

end LineBasic
