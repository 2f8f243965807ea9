import LineBasic.Proofs.Printing.LineLexemes
import LineBasic.Proofs.Printing.Path

/-! The lexemes around an operand.

What is printed in front of an operand and behind it is cut into lexemes that do
not depend on how the operand itself is grouped. -/

namespace LineBasic

namespace Expression

/-- Between parentheses or not, the text of an expression spells its lexemes. -/
theorem Readable.spelling_parenthesized {expression : Expression}
    (readable : expression.Readable) (needed : Bool) {lexemes : List Lexeme}
    {text rest : List Char} (breaks : Breaks text)
    (behind : Spelling lexemes text rest) :
    Spelling (enclosed needed expression.lexemes ++ lexemes)
      ((parenthesized needed expression.print).toList ++ text) rest := by
  cases needed with
  | false => exact readable.spelling breaks behind
  | true =>
      have closed := readable.spelling (breaks_rightParen text) behind.rightParen
      simpa [enclosed, parenthesized] using closed.leftParen

end Expression

namespace Path

open Expression (enclosed)

def openingLexemes (needed : Bool) : List Lexeme :=
  if needed then [.symbol .leftParen] else []

def closingLexemes (needed : Bool) : List Lexeme :=
  if needed then [.symbol .rightParen] else []

/-- The lexemes in front of the operand and its parentheses. -/
def lexemesBefore : Path → Expression → List Lexeme
  | root, _ => []
  | under outer op, node =>
      outer.lexemesBefore (.unary op node) ++
        openingLexemes (outer.encloses (.unary op node)) ++ [.symbol op.symbol]
  | leftOf outer op right, node =>
      outer.lexemesBefore (.binary node op right) ++
        openingLexemes (outer.encloses (.binary node op right))
  | rightOf outer left op, node =>
      outer.lexemesBefore (.binary left op node) ++
        openingLexemes (outer.encloses (.binary left op node)) ++
        enclosed ((Slot.left op).encloses left) left.lexemes ++
        [.symbol op.symbol]

/-- The lexemes behind the operand and its parentheses. -/
def lexemesAfter : Path → Expression → List Lexeme
  | root, _ => []
  | under outer op, node =>
      closingLexemes (outer.encloses (.unary op node)) ++
        outer.lexemesAfter (.unary op node)
  | leftOf outer op right, node =>
      .symbol op.symbol :: enclosed ((Slot.right op).encloses right) right.lexemes ++
        closingLexemes (outer.encloses (.binary node op right)) ++
        outer.lexemesAfter (.binary node op right)
  | rightOf outer left op, node =>
      closingLexemes (outer.encloses (.binary left op node)) ++
        outer.lexemesAfter (.binary left op node)

theorem enclosed_eq (needed : Bool) (lexemes : List Lexeme) :
    enclosed needed lexemes =
      openingLexemes needed ++ lexemes ++ closingLexemes needed := by
  cases needed
  · simp [enclosed, openingLexemes, closingLexemes]
  · rfl

theorem group_lexemes (path : Path) (node : Expression) (hole : Grouping) :
    (path.group node hole).lexemes =
      path.lexemesBefore node ++ hole.lexemes ++ path.lexemesAfter node := by
  induction path generalizing node hole with
  | root => simp [group, lexemesBefore, lexemesAfter]
  | under outer op induction =>
      rw [group, induction, Grouping.enclosedIf_lexemes]
      simp [lexemesBefore, lexemesAfter, enclosed_eq, Grouping.lexemes]
  | leftOf outer op right induction =>
      rw [group, induction, Grouping.enclosedIf_lexemes]
      simp [lexemesBefore, lexemesAfter, enclosed_eq, Grouping.lexemes,
        Grouping.enclosedIf_lexemes, Expression.grouping_lexemes]
  | rightOf outer left op induction =>
      rw [group, induction, Grouping.enclosedIf_lexemes]
      simp [lexemesBefore, lexemesAfter, enclosed_eq, Grouping.lexemes,
        Grouping.enclosedIf_lexemes, Expression.grouping_lexemes]

theorem grouping_fill (path : Path) (node : Expression) :
    (path.fill node).grouping =
      path.group node (Grouping.enclosedIf (path.encloses node) node.grouping) := by
  induction path generalizing node with
  | root => rfl
  | under outer op induction => exact induction (.unary op node)
  | leftOf outer op right induction => exact induction (.binary node op right)
  | rightOf outer left op induction => exact induction (.binary left op node)

theorem lexemes_fill (path : Path) (node : Expression) :
    (path.fill node).lexemes =
      path.lexemesBefore node ++ enclosed (path.encloses node) node.lexemes ++
        path.lexemesAfter node := by
  rw [← Expression.grouping_lexemes, grouping_fill, group_lexemes,
    Grouping.enclosedIf_lexemes, Expression.grouping_lexemes]

/-! ## The text behind an operand -/

theorem writable_of_fill {path : Path} {node : Expression}
    (writable : (path.fill node).Writable) : node.Writable := by
  induction path generalizing node with
  | root => exact writable
  | under outer op induction => exact (induction writable).operand
  | leftOf outer op right induction => exact (induction writable).left
  | rightOf outer left op induction => exact (induction writable).right

theorem readable_of_fill {path : Path} {node : Expression}
    (readable : (path.fill node).Readable) : node.Readable :=
  ⟨writable_of_fill readable.toWritable,
    fun value member => readable.ints value (path.mem_ints_fill member)⟩

theorem breaks_closing {needed : Bool} {text : List Char} (breaks : Breaks text) :
    Breaks ((closing needed).toList ++ text) := by
  cases needed with
  | true => exact breaks_rightParen text
  | false => exact breaks

theorem breaks_after (path : Path) (node : Expression) :
    Breaks (path.after node).toList := by
  induction path generalizing node with
  | root => exact breaks_nil
  | under outer op induction =>
      rw [after, String.toList_append]
      exact breaks_closing (induction _)
  | leftOf outer op right induction =>
      simpa [after] using breaks_binaryOp op _
  | rightOf outer left op induction =>
      rw [after, String.toList_append]
      exact breaks_closing (induction _)

theorem spelling_closing (needed : Bool) {lexemes : List Lexeme}
    {text rest : List Char} (behind : Spelling lexemes text rest) :
    Spelling (closingLexemes needed ++ lexemes) ((closing needed).toList ++ text)
      rest := by
  cases needed with
  | true => exact behind.rightParen
  | false => exact behind

/-- What is printed behind an operand is a text of its own. -/
theorem spelling_after {path : Path} {node : Expression}
    (readable : (path.fill node).Readable) :
    Spelling (path.lexemesAfter node) (path.after node).toList [] := by
  induction path generalizing node with
  | root =>
      change Spelling [] [] []
      exact .rest (by simp)
  | under outer op induction =>
      simpa [after, lexemesAfter] using spelling_closing _ (induction readable)
  | leftOf outer op right induction =>
      have whole : (Expression.binary node op right).Readable :=
        readable_of_fill readable
      have beside : right.Readable :=
        ⟨whole.toWritable.right,
          fun value member => whole.ints value (List.mem_append_right _ member)⟩
      have spelled := beside.spelling_parenthesized
        ((Slot.right op).encloses right) (breaks_closing (outer.breaks_after _))
        (spelling_closing (outer.encloses (.binary node op right))
          (induction readable))
      simpa [after, lexemesAfter] using spelled.binaryOp op
  | rightOf outer left op induction =>
      simpa [after, lexemesAfter] using spelling_closing _ (induction readable)

theorem lex_after {path : Path} {node : Expression}
    (readable : (path.fill node).Readable) :
    lex (path.after node) = .ok (path.lexemesAfter node ++ [.endOfInput]) :=
  lex_eq_ok_iff_spelling.mpr ⟨path.lexemesAfter node, rfl, spelling_after readable⟩

end Path

end LineBasic
