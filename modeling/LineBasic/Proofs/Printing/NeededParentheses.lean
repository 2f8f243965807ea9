import LineBasic.Proofs.Printing.Path

/-! Parentheses around the application of a binary operator are needed.

Without one pair the text is that of a grouping of the same expression, and it
could only be read as that expression if the grouping fitted. But the operand
has a priority below what its place allows. -/

namespace LineBasic

namespace Path

/-- The printed grouping without the parentheses around one operand. -/
def bare (path : Path) (node : Expression) : Grouping :=
  path.group node node.grouping

theorem bare_tree (path : Path) (node : Expression) :
    (path.bare node).tree = (path.fill node).signless :=
  group_tree node.grouping_tree

theorem bare_text {path : Path} {node : Expression}
    (readable : ∀ value ∈ (path.fill node).ints, Int64.minValue < value) :
    (path.bare node).text = path.before node ++ node.print ++ path.after node := by
  have nodeReadable : ∀ value ∈ node.ints, Int64.minValue < value := by
    intro value member
    exact readable value (path.mem_ints_fill member)
  rw [bare, group_text readable, Expression.grouping_text nodeReadable]

/-- An operator in an enclosed operand has too low a priority to stand there
without parentheses. -/
theorem bare_not_fits {path : Path} {left right : Expression} {op : BinaryOp}
    (enclosed : path.encloses (.binary left op right) = true) :
    ¬(path.bare (.binary left op right)).Fits 0 := by
  intro fits
  have standsThere : path.level ≤ op.priority := (fits_hole fits).1
  rw [encloses_binary, decide_eq_true_eq] at enclosed
  omega

/-- The printed text has parentheses around the operand exactly if the rule of its
place asks for them, and without this pair it is not read as the same expression. -/
theorem enclosing_pair_needed {path : Path} {left right : Expression}
    {op : BinaryOp} (readable : (path.fill (.binary left op right)).Readable) :
    let node := Expression.binary left op right
    let printed := path.before node ++ "(" ++ node.print ++ ")" ++ path.after node
    ((path.fill node).print = printed ↔ path.encloses node = true) ∧
    ((path.fill node).print = printed →
      ∃ whole, Expression.ofText? (path.fill node).print = some whole ∧
        Expression.ofText? (path.before node ++ node.print ++ path.after node) ≠
          some whole) := by
  intro node printed
  refine ⟨path.print_fill_eq_iff node, ?_⟩
  intro paired
  have enclosed : path.encloses node = true := (path.print_fill_eq_iff node).mp paired
  refine ⟨(path.fill node).signless, readable.ofText?_print_eq, ?_⟩
  intro same
  have writable : (path.bare node).tree.Writable := by
    rw [bare_tree]
    exact readable.toWritable.signless
  have unsigned : ∀ value ∈ (path.bare node).tree.ints, 0 ≤ value := by
    rw [bare_tree]
    exact Expression.signless_ints readable.ints
  rw [← bare_text readable.ints, ← bare_tree,
    Grouping.ofText?_text writable unsigned] at same
  exact bare_not_fits enclosed same

/-- Without its parentheses the difference would lose its right operand to the
product. -/
theorem enclosing_pair_needed_under_product :
    let path := leftOf (rightOf root (.var "x") .add) .mul (.int (-3))
    let node := Expression.binary (.var "a") .sub (.str ")")
    (path.fill node).print =
      path.before node ++ "(" ++ node.print ++ ")" ++ path.after node ∧
    ∃ whole, Expression.ofText? (path.fill node).print = some whole ∧
      Expression.ofText? (path.before node ++ node.print ++ path.after node) ≠
        some whole := by
  intro path node
  have ints : (path.fill node).ints = [-3] := rfl
  have readable : (path.fill node).Readable := by
    refine ⟨⟨by decide, by decide⟩, ?_⟩
    rw [ints, List.forall_mem_singleton]
    decide
  rcases enclosing_pair_needed readable with ⟨paired, needed⟩
  have text := paired.mpr (by decide)
  exact ⟨text, needed text⟩

end Path

end LineBasic
