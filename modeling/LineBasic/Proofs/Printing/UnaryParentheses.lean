import LineBasic.Proofs.Printing.NeededParentheses
import LineBasic.Proofs.Printing.PathLexemes

/-! Parentheses around the application of a unary operator.

All of them are printed, needed or not. Without its own pair the application of a
unary operator fits wherever it stands, since no priority keeps it out. But a
negation of truth takes in every operator that comes next, so that it may not be
followed by one. -/

namespace LineBasic.Path

open Grouping (enclosedIf)
open Expression (Stops stops_rightParen)

/-! ## What fits around an operand -/

theorem encloses_unary {path : Path} {op : UnaryOp} {operand : Expression} :
    path.encloses (.unary op operand) = true ↔ path ≠ root := by
  cases path with
  | root => simp [encloses, slot?]
  | _ => simp [encloses, slot?, Slot.encloses]

theorem fits_unary {path : Path} {op : UnaryOp} {hole : Grouping} (needed : Bool)
    (fits : hole.Fits op.priority) :
    (enclosedIf needed (.unary op hole)).Fits path.level := by
  cases needed <;> exact fits

theorem fits_binary {path : Path} {left right : Expression} {op : BinaryOp}
    {first second : Grouping} (firstFits : first.Fits op.priority)
    (closed : first.endsOpen = false) (secondFits : second.Fits (op.priority + 1)) :
    (enclosedIf (path.encloses (.binary left op right))
      (.binary first op second)).Fits path.level := by
  rw [encloses_binary, enclosedIf]
  split
  · exact ⟨Nat.zero_le _, firstFits, closed, secondFits⟩
  · rename_i notBelow
    exact ⟨Nat.le_of_not_lt (by simpa using notBelow), firstFits, closed, secondFits⟩

/-! ## What follows an operand -/

theorem stops_closing (needed : Bool) {rest : List Lexeme}
    (stops : needed = false → Stops 0 rest) :
    Stops 0 (closingLexemes needed ++ rest) := by
  cases needed with
  | true => exact stops_rightParen 0 rest
  | false => exact stops rfl

theorem stops_after_under (outer : Path) (op : UnaryOp) (node : Expression) :
    Stops 0 ((under outer op).lexemesAfter node) := by
  rw [lexemesAfter]
  apply stops_closing
  intro bare
  have outermost : outer = root := by
    simpa [bare] using (@encloses_unary outer op node).not
  subst outermost
  simp [lexemesAfter, Stops]

/-- A parenthesis behind what ends open is as good as any other end. -/
theorem endsOpen_enclosedIf_iff {needed : Bool} {inner : Grouping}
    {rest : List Lexeme} :
    ((enclosedIf needed inner).endsOpen = true → Stops 0 rest) ↔
      (inner.endsOpen = true → Stops 0 (closingLexemes needed ++ rest)) := by
  cases needed with
  | true => exact iff_of_true nofun fun _ => stops_rightParen 0 rest
  | false => exact Iff.rfl

/-- Where an operand fits in its place, the whole fits unless the operand ends open
and an operator comes next. -/
theorem group_fits_iff {path : Path} {node : Expression} {hole : Grouping}
    (fits : hole.Fits path.level) :
    (path.group node hole).Fits 0 ↔
      (hole.endsOpen = true → Stops 0 (path.lexemesAfter node)) := by
  -- From the operand outwards, as far as no parenthesis closes behind it.
  induction path generalizing node hole with
  | root =>
      have atEnd : Stops 0 (root.lexemesAfter node) := by
        simp [lexemesAfter, Stops]
      exact iff_of_true fits fun _ => atEnd
  | under outer op induction =>
      have stops := stops_after_under outer op node
      refine iff_of_true ((induction (fits_unary _ fits)).mpr ?_) fun _ => stops
      exact endsOpen_enclosedIf_iff.mpr fun _ => stops
  | leftOf outer op right induction =>
      cases endsOpen : hole.endsOpen with
      | true =>
          -- The operator of this frame comes next and would be taken in.
          refine iff_of_false ?_ ?_
          · intro whole
            have closed := (fits_of_enclosedIf (fits_hole whole)).2.2.1
            rw [endsOpen] at closed
            cases closed
          · intro stops
            exact Nat.not_lt_zero _ (stops rfl).lt_of_symbol
      | false =>
          refine iff_of_true ?_ fun opens => absurd opens Bool.false_ne_true
          have beside := Expression.fits_printed (.right op) right.grouping_fits
          have closed := Expression.endsOpen_printed (.right op) right
          refine (induction (fits_binary fits endsOpen beside)).mpr ?_
          apply endsOpen_enclosedIf_iff.mpr
          intro opens
          rw [Grouping.endsOpen, closed] at opens
          cases opens
  | rightOf outer left op induction =>
      have beside := Expression.fits_printed (.left op) left.grouping_fits
      have closed := Expression.endsOpen_printed (.left op) left
      exact (induction (fits_binary beside closed fits)).trans endsOpen_enclosedIf_iff

/-! ## Without the pair -/

theorem endsOpen_unary_iff {op : UnaryOp} {operand : Expression} :
    (Expression.unary op operand).grouping.endsOpen = true ↔ op = .not := by
  cases op with
  | neg =>
      have closed := Expression.endsOpen_printed (.operand .neg) operand
      rw [Expression.grouping, Grouping.endsOpen, closed]
      decide
  | not => exact iff_of_true rfl rfl

theorem bare_fits_iff {path : Path} {op : UnaryOp} {operand : Expression} :
    (path.bare (.unary op operand)).Fits 0 ↔
      (op = .not → Stops 0 (path.lexemesAfter (.unary op operand))) := by
  -- The lowest priority plays no part for the application of a unary operator.
  have fits : (Expression.unary op operand).grouping.Fits path.level :=
    (Expression.unary op operand).grouping_fits
  rw [bare, group_fits_iff fits, endsOpen_unary_iff]

theorem stops_iff_head? {rest : List Lexeme} :
    Stops 0 rest ↔ ∀ op : BinaryOp,
      (rest ++ [Lexeme.endOfInput]).head? ≠ some (.symbol op.symbol) := by
  rw [Expression.stops_iff]
  cases rest with
  | nil => simp
  | cons next rest => simp

theorem bare_writable {path : Path} {node : Expression}
    (readable : (path.fill node).Readable) :
    (path.bare node).tree.Writable ∧
      ∀ value ∈ (path.bare node).tree.ints, 0 ≤ value := by
  rw [bare_tree]
  exact ⟨readable.toWritable.signless, Expression.signless_ints readable.ints⟩

theorem lex_bare {path : Path} {node : Expression}
    (readable : (path.fill node).Readable) :
    lex (path.before node ++ node.print ++ path.after node) =
      .ok (path.lexemesBefore node ++ node.lexemes ++ path.lexemesAfter node ++
        [.endOfInput]) := by
  have writable := bare_writable readable
  rw [← bare_text readable.ints, Grouping.lex_text writable.1 writable.2, bare,
    group_lexemes, Expression.grouping_lexemes]

theorem ofText?_bare_iff {path : Path} {node : Expression}
    (readable : (path.fill node).Readable) :
    Expression.ofText? (path.before node ++ node.print ++ path.after node) =
        some (path.fill node).signless ↔
      (path.bare node).Fits 0 := by
  have writable := bare_writable readable
  rw [← bare_text readable.ints, ← bare_tree,
    Grouping.ofText?_text writable.1 writable.2]

/-- The application of a unary operator within an expression is printed between
parentheses. Without this pair the text is read as the same expression, unless it is
a negation of truth and a binary operator comes next. -/
theorem unary_pair_needed_iff {path : Path} {op : UnaryOp} {operand : Expression}
    (readable : (path.fill (.unary op operand)).Readable) (nested : path ≠ root) :
    let node := Expression.unary op operand
    let printed := path.before node ++ "(" ++ node.print ++ ")" ++ path.after node
    let shortened := path.before node ++ node.print ++ path.after node
    (path.fill node).print = printed ∧
    ∃ before inner after whole,
      lex node.print = .ok (inner ++ [.endOfInput]) ∧
      lex (path.after node) = .ok after ∧
      lex printed = .ok (before ++ .symbol .leftParen :: inner ++
        .symbol .rightParen :: after) ∧
      lex shortened = .ok (before ++ inner ++ after) ∧
      Expression.ofText? printed = some whole ∧
      (Expression.ofText? shortened = some whole ↔
        (op = .not → ∀ other : BinaryOp,
          after.head? ≠ some (.symbol other.symbol))) := by
  intro node printed shortened
  have enclosed : path.encloses node = true := encloses_unary.mpr nested
  have text : (path.fill node).print = printed :=
    (path.print_fill_eq_iff node).mpr enclosed
  have own : lex node.print = .ok (node.lexemes ++ [.endOfInput]) := by
    rw [(readable_of_fill readable).lex_print, Expression.grouping_lexemes]
  refine ⟨text, path.lexemesBefore node, node.lexemes,
    path.lexemesAfter node ++ [.endOfInput], (path.fill node).signless,
    own, lex_after readable, ?_, ?_, ?_, ?_⟩
  · rw [← text, readable.lex_print, Expression.grouping_lexemes, lexemes_fill,
      enclosed]
    simp [Expression.enclosed, node]
  · rw [lex_bare readable, List.append_assoc]
  · rw [← text, readable.ofText?_print_eq]
  · rw [ofText?_bare_iff readable, bare_fits_iff, stops_iff_head?]

/-- The same negation of truth as the right operand of a sum, in front of a
parenthesis and in front of a comparison. -/
theorem unary_pair_needed_iff_in_sum :
    let node := Expression.unary .not (.str "(")
    let closed := rightOf (leftOf root .mul (.var "y")) (.var "a") .add
    let followed := rightOf (leftOf root .lt (.int (-3))) (.var "a") .add
    (closed.fill node).print = "(a+(!\"(\"))*y" ∧
      Expression.ofText? "(a+!\"(\")*y" =
        Expression.ofText? (closed.fill node).print ∧
      (followed.fill node).print = "a+(!\"(\") < -3" ∧
      Expression.ofText? "a+!\"(\" < -3" ≠
        Expression.ofText? (followed.fill node).print := by
  intro node closed followed
  have closedReadable : (closed.fill node).Readable := by decide
  have followedReadable : (followed.fill node).Readable := by decide
  rcases unary_pair_needed_iff closedReadable nofun with
    ⟨closedText, -, -, closedAfter, closedWhole, -, closedBehind, -, -, closedRead,
      closedSame⟩
  rcases unary_pair_needed_iff followedReadable nofun with
    ⟨followedText, -, -, followedAfter, followedWhole, -, followedBehind, -, -,
      followedRead, followedSame⟩
  rw [← closedText] at closedRead
  rw [← followedText] at followedRead
  have closedEnd := Except.ok.inj (closedBehind.symm.trans (lex_after closedReadable))
  have followedEnd :=
    Except.ok.inj (followedBehind.symm.trans (lex_after followedReadable))
  refine ⟨by decide, ?_, by decide, ?_⟩
  · rw [closedRead]
    apply closedSame.mpr
    intro negation other
    rw [closedEnd]
    cases other <;> decide
  · rw [followedRead]
    intro same
    exact followedSame.mp same rfl .lt (by rw [followedEnd]; decide)

end LineBasic.Path
