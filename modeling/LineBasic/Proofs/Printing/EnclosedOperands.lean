import LineBasic.Proofs.Printing.PathLexemes
import LineBasic.Proofs.Reading.Pairs

/-! What stands between printed parentheses.

Printed lexemes are balanced at every operand, so that a pair that opens in an
operand closes there. Going down from the whole expression, a pair is therefore
found to be that of one operand, which is no leaf and has no second pair. -/

namespace LineBasic

open Expression (enclosed)
open LineBasic.Path (openingLexemes closingLexemes)

/-! ## Printed lexemes -/

namespace Expression

theorem lexemes_unary (op : UnaryOp) (operand : Expression) :
    (unary op operand).lexemes =
      .symbol op.symbol ::
        enclosed ((Slot.operand op).encloses operand) operand.lexemes := by
  rw [← grouping_lexemes, grouping, Grouping.lexemes, Grouping.enclosedIf_lexemes,
    grouping_lexemes]

theorem lexemes_binary (left : Expression) (op : BinaryOp) (right : Expression) :
    (binary left op right).lexemes =
      enclosed ((Slot.left op).encloses left) left.lexemes ++
        .symbol op.symbol ::
          enclosed ((Slot.right op).encloses right) right.lexemes := by
  rw [← grouping_lexemes, grouping, Grouping.lexemes, Grouping.enclosedIf_lexemes,
    Grouping.enclosedIf_lexemes, grouping_lexemes, grouping_lexemes]

theorem leftParen_notMem {expression : Expression} (leaf : expression.isLeaf = true) :
    .symbol .leftParen ∉ expression.lexemes := by
  cases expression with
  | int value =>
      rw [lexemes]
      split <;> simp
  | var name | str text => simp [lexemes]
  | unary _ _ | binary _ _ _ => cases leaf

theorem lexemes_ne_nil (expression : Expression) : expression.lexemes ≠ [] := by
  cases expression with
  | int value =>
      rw [lexemes]
      split <;> simp
  | var name | str text => exact List.cons_ne_nil _ _
  | unary op operand =>
      rw [lexemes_unary]
      exact List.cons_ne_nil _ _
  | binary left op right =>
      rw [lexemes_binary]
      simp

theorem enclosed_ne_nil (needed : Bool) (operand : Expression) :
    enclosed needed operand.lexemes ≠ [] := by
  cases needed with
  | false => exact operand.lexemes_ne_nil
  | true => exact List.cons_ne_nil _ _

theorem lexemes_ne_singleton {expression : Expression}
    (composed : expression.isLeaf = false) (lexeme : Lexeme) :
    expression.lexemes ≠ [lexeme] := by
  intro single
  cases expression with
  | int _ | var _ | str _ => cases composed
  | unary op operand =>
      rw [lexemes_unary] at single
      exact enclosed_ne_nil _ operand (List.cons.inj single).2
  | binary left op right =>
      rw [lexemes_binary] at single
      rcases List.append_eq_singleton_iff.mp single with ⟨nothing, -⟩ | ⟨-, nothing⟩
      · exact enclosed_ne_nil _ left nothing
      · cases nothing

theorem balanced_enclosed (needed : Bool) {lexemes : List Lexeme}
    (balanced : Balanced lexemes) : Balanced (enclosed needed lexemes) := by
  cases needed with
  | false => exact balanced
  | true => exact .pair balanced .nil

theorem balanced_lexemes (expression : Expression) : Balanced expression.lexemes := by
  induction expression with
  | int value =>
      rw [lexemes]
      split
      · exact .plain rfl (.plain rfl .nil)
      · exact .plain rfl .nil
  | var name | str text => exact .plain rfl .nil
  | unary op operand induction =>
      rw [lexemes_unary]
      exact .plain op.isParenthesis_symbol (balanced_enclosed _ induction)
  | binary left op right leftInduction rightInduction =>
      rw [lexemes_binary]
      exact (balanced_enclosed _ leftInduction).append
        (.plain op.isParenthesis_symbol (balanced_enclosed _ rightInduction))

/-- An expression by itself is not printed between parentheses. -/
theorem not_pair_lexemes (expression : Expression) (content : List Lexeme) :
    ¬Pair expression.lexemes [] content [] := by
  intro pair
  cases expression with
  | int _ | var _ | str _ => exact leftParen_notMem rfl pair.leftParen_mem
  | unary op operand =>
      rw [lexemes_unary] at pair
      rcases pair.of_cons (Lexeme.ne_leftParen op.isParenthesis_symbol) with
        ⟨front, nothing, -⟩
      cases nothing
  | binary left op right =>
      rw [lexemes_binary] at pair
      rcases pair.of_append (balanced_enclosed _ left.balanced_lexemes) with
        ⟨rest, nothing, -⟩ | ⟨front, nothing, behindLeft⟩
      · simp at nothing
      · rcases behindLeft.of_cons (Lexeme.ne_leftParen op.isParenthesis_symbol) with
          ⟨behind, rfl, -⟩
        simp at nothing

end Expression

/-! ## The operand of a pair -/

/-- A pair of lexemes that may be enclosed is the enclosing one or one of theirs. -/
theorem Pair.of_enclosed {needed : Bool} {lexemes before inner after : List Lexeme}
    (balanced : Balanced lexemes)
    (pair : Pair (enclosed needed lexemes) before inner after) :
    (needed = true ∧ before = [] ∧ inner = lexemes ∧ after = []) ∨
      ∃ front rest, before = openingLexemes needed ++ front ∧
        after = rest ++ closingLexemes needed ∧ Pair lexemes front inner rest := by
  cases needed with
  | false => exact .inr ⟨before, after, rfl, (List.append_nil after).symm, pair⟩
  | true =>
      cases before with
      | nil =>
          have same := (List.cons.inj pair.whole).2
          rcases balanced.eq_of_closing pair.balanced same with ⟨rfl, rfl⟩
          exact .inl ⟨rfl, rfl, rfl, rfl⟩
      | cons start front =>
          rcases List.cons.inj pair.whole with ⟨rfl, whole⟩
          rcases Pair.of_append balanced ⟨whole, pair.balanced⟩ with
            ⟨rest, rfl, within⟩ | ⟨between, rfl, closing⟩
          · exact .inr ⟨front, rest, rfl, rfl, within⟩
          · rcases closing.of_cons (by decide) with ⟨_, -, nothing⟩
            exact absurd nothing Pair.not_nil

namespace Path

/-- Whether the operand at the end of the path stands in the pair that encloses the
inner lexemes of the whole expression. -/
structure LeadsToPair (path : Path) (operand whole : Expression)
    (before inner after : List Lexeme) : Prop where
  fill : path.fill operand = whole
  enclosed : path.encloses operand = true
  before : path.lexemesBefore operand = before
  inner : operand.lexemes = inner
  after : path.lexemesAfter operand = after

/-- A pair of the operand at the end of a path belongs to this operand or to one
farther down. -/
theorem exists_leadsToPair (path : Path) (node : Expression)
    {before inner after : List Lexeme}
    (pair : Pair (enclosed (path.encloses node) node.lexemes) before inner after) :
    ∃ deeper operand, LeadsToPair deeper operand (path.fill node)
      (path.lexemesBefore node ++ before) inner (after ++ path.lexemesAfter node) := by
  -- The path grows by the operator that is gone under, and the whole stays.
  rcases pair.of_enclosed node.balanced_lexemes with
    ⟨needed, rfl, rfl, rfl⟩ | ⟨front, rest, rfl, rfl, within⟩
  · exact ⟨path, node, rfl, needed, (List.append_nil _).symm, rfl, rfl⟩
  · cases node with
    | int _ | var _ | str _ =>
        exact absurd within.leftParen_mem (Expression.leftParen_notMem rfl)
    | unary op operand =>
        rw [Expression.lexemes_unary] at within
        rcases within.of_cons (Lexeme.ne_leftParen op.isParenthesis_symbol) with
          ⟨between, rfl, inOperand⟩
        rcases exists_leadsToPair (.under path op) operand inOperand with
          ⟨deeper, found, leads⟩
        exact ⟨deeper, found, by simpa [lexemesBefore, lexemesAfter, fill] using leads⟩
    | binary left op right =>
        rw [Expression.lexemes_binary] at within
        have balanced := Expression.balanced_enclosed ((Slot.left op).encloses left)
          left.balanced_lexemes
        rcases within.of_append balanced with
          ⟨between, rfl, inLeft⟩ | ⟨between, rfl, behindLeft⟩
        · rcases exists_leadsToPair (.leftOf path op right) left inLeft with
            ⟨deeper, found, leads⟩
          exact ⟨deeper, found, by simpa [lexemesBefore, lexemesAfter, fill] using leads⟩
        · rcases behindLeft.of_cons (Lexeme.ne_leftParen op.isParenthesis_symbol) with
            ⟨behind, rfl, inRight⟩
          rcases exists_leadsToPair (.rightOf path left op) right inRight with
            ⟨deeper, found, leads⟩
          exact ⟨deeper, found, by simpa [lexemesBefore, lexemesAfter, fill] using leads⟩

theorem ne_root_of_encloses {path : Path} {node : Expression}
    (encloses : path.encloses node = true) : path ≠ .root := by
  rintro rfl
  cases encloses

theorem isLeaf_of_encloses {path : Path} {node : Expression}
    (encloses : path.encloses node = true) : node.isLeaf = false := by
  cases node with
  | int _ | var _ | str _ => cases path <;> cases encloses
  | unary _ _ | binary _ _ _ => rfl

/-- Around an operand and its own parentheses there is an operator on one side at
least, so that no pair of another operand fits tightly around it. -/
theorem lexemesAfter_ne_of_lexemesBefore {path : Path} {node : Expression}
    {before : List Lexeme}
    (opening : path.lexemesBefore node = before ++ [.symbol .leftParen])
    (after : List Lexeme) :
    path.lexemesAfter node ++ [.endOfInput] ≠ .symbol .rightParen :: after := by
  intro closing
  cases path with
  | root => cases closing
  | under outer op =>
      rcases List.append_inj' opening rfl with ⟨-, last⟩
      exact Lexeme.ne_leftParen op.isParenthesis_symbol (List.cons.inj last).1
  | leftOf outer op right =>
      exact Lexeme.ne_rightParen op.isParenthesis_symbol (List.cons.inj closing).1
  | rightOf outer left op =>
      rcases List.append_inj' opening rfl with ⟨-, last⟩
      exact Lexeme.ne_leftParen op.isParenthesis_symbol (List.cons.inj last).1

end Path

/-! ## Pairs of a printed text -/

namespace Expression

/-- In the lexemes of a printed expression every parenthesis has its counterpart.
Between the parentheses of a pair are the lexemes of one operand within the
expression that is no leaf. So a pair is not filled by one lexeme, a leaf or another
pair, and the text as a whole is no pair. -/
theorem pairs_enclose_operands {expression : Expression}
    (readable : expression.Readable) :
    ∃ printed, lex expression.print = .ok printed ∧ Balanced printed ∧
      (∀ before inner after, Pair printed before inner after →
        (∃ (path : Path) (operand : Expression), path ≠ .root ∧
          path.fill operand = expression ∧ operand.isLeaf = false ∧
          lex operand.print = .ok (inner ++ [.endOfInput]) ∧
          before = path.lexemesBefore operand ∧
          after = path.lexemesAfter operand ++ [.endOfInput]) ∧
        (∀ lexeme, inner ≠ [lexeme]) ∧
        (∀ (path : Path) (leaf : Expression), path.fill leaf = expression →
          leaf.isLeaf = true →
          path.lexemesBefore leaf = before ++ [.symbol .leftParen] →
          path.lexemesAfter leaf ++ [.endOfInput] ≠ .symbol .rightParen :: after) ∧
        ∀ content, ¬Pair inner [] content []) ∧
      ∀ content, ¬Pair printed [] content [.endOfInput] := by
  have finish : Balanced [.endOfInput] := .plain rfl .nil
  have cut := readable.lex_print
  rw [grouping_lexemes] at cut
  refine ⟨_, cut, expression.balanced_lexemes.append finish, ?_, ?_⟩
  · intro before inner after pair
    rcases pair.of_append_endOfInput expression.balanced_lexemes with
      ⟨rest, rfl, within⟩
    rcases Path.exists_leadsToPair .root expression within with
      ⟨path, operand, leads⟩
    have composed := Path.isLeaf_of_encloses leads.enclosed
    have whole : path.fill operand = expression := leads.fill
    have own := (Path.readable_of_fill (whole ▸ readable)).lex_print
    rw [grouping_lexemes, leads.inner] at own
    have behind : rest = path.lexemesAfter operand := by
      simpa [Path.lexemesAfter] using leads.after.symm
    refine ⟨⟨path, operand, Path.ne_root_of_encloses leads.enclosed, whole, composed,
      own, leads.before.symm, by rw [behind]⟩, ?_, ?_, ?_⟩
    · rw [← leads.inner]
      exact lexemes_ne_singleton composed
    · intro other leaf _ _ opening
      exact other.lexemesAfter_ne_of_lexemesBefore opening _
    · rw [← leads.inner]
      exact operand.not_pair_lexemes
  · intro content pair
    rcases pair.of_append_endOfInput expression.balanced_lexemes with
      ⟨rest, same, within⟩
    have nothing : rest = [] := by simpa using same
    subst nothing
    exact expression.not_pair_lexemes content within

/-- The parentheses in the string are no part of the pair around it. -/
theorem pairs_enclose_operands_product :
    let difference := binary (var "a") .sub (str ")(")
    let expression := binary difference .mul (unary .not (int (-3)))
    expression.print = "(a-\")(\")*(!-3)" ∧
      ∃ (path : Path) (operand : Expression), path ≠ .root ∧
        path.fill operand = expression ∧ operand.isLeaf = false ∧
        lex operand.print =
          .ok [.ident "a", .symbol .minus, .str ")(", .endOfInput] := by
  intro difference expression
  have readable : expression.Readable := by decide
  rcases pairs_enclose_operands readable with ⟨printed, cut, -, pairs, -⟩
  let inner : List Lexeme := [.ident "a", .symbol .minus, .str ")("]
  let after : List Lexeme := [.symbol .star, .symbol .leftParen, .symbol .bang,
    .symbol .minus, .int 3, .symbol .rightParen, .endOfInput]
  have balanced : Balanced inner := .plain rfl (.plain rfl (.plain rfl .nil))
  have whole : lex expression.print =
      .ok (.symbol .leftParen :: (inner ++ .symbol .rightParen :: after)) :=
    readable.lex_print
  have pair : Pair printed [] inner after :=
    ⟨Except.ok.inj (cut.symm.trans whole), balanced⟩
  rcases (pairs [] inner after pair).1 with
    ⟨path, operand, below, filled, composed, own, -⟩
  exact ⟨by decide, path, operand, below, filled, composed, own⟩

end Expression

end LineBasic
