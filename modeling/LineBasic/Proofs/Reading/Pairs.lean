import LineBasic.Lexeme.Basic
import LineBasic.Operator

/-! Parentheses that belong together.

A pair is told from the lexemes alone, by what stands between its parentheses:
there every parenthesis has its counterpart. A string is one lexeme, so that the
characters in it do not count. -/

namespace LineBasic

def Lexeme.isParenthesis : Lexeme → Bool
  | symbol .leftParen | symbol .rightParen => true
  | _ => false

theorem Lexeme.ne_leftParen {lexeme : Lexeme}
    (plain : lexeme.isParenthesis = false) : lexeme ≠ .symbol .leftParen := by
  rintro rfl
  cases plain

theorem Lexeme.ne_rightParen {lexeme : Lexeme}
    (plain : lexeme.isParenthesis = false) : lexeme ≠ .symbol .rightParen := by
  rintro rfl
  cases plain

theorem UnaryOp.isParenthesis_symbol (op : UnaryOp) :
    (Lexeme.symbol op.symbol).isParenthesis = false := by
  cases op <;> rfl

theorem BinaryOp.isParenthesis_symbol (op : BinaryOp) :
    (Lexeme.symbol op.symbol).isParenthesis = false := by
  cases op <;> rfl

/-- Lexemes in which every parenthesis has its counterpart. -/
inductive Balanced : List Lexeme → Prop
  | nil : Balanced []
  | plain {first : Lexeme} {rest : List Lexeme} (plain : first.isParenthesis = false)
      (behind : Balanced rest) : Balanced (first :: rest)
  | pair {inner rest : List Lexeme} (within : Balanced inner)
      (behind : Balanced rest) :
      Balanced (.symbol .leftParen :: (inner ++ .symbol .rightParen :: rest))

/-- Two parentheses of the lexemes that belong together: what stands between them
is balanced. -/
structure Pair (lexemes before inner after : List Lexeme) : Prop where
  whole : lexemes =
    before ++ .symbol .leftParen :: (inner ++ .symbol .rightParen :: after)
  balanced : Balanced inner

/-! ## Balanced lexemes -/

namespace Balanced

variable {left right : List Lexeme}

theorem append (first : Balanced left) (second : Balanced right) :
    Balanced (left ++ right) := by
  induction first with
  | nil => exact second
  | plain plain behind induction => exact .plain plain induction
  | pair within behind withinInduction induction =>
      rw [List.cons_append, List.append_assoc]
      exact .pair within induction

/-- The first closing parenthesis without a counterpart is the place where balanced
lexemes end. -/
theorem eq_of_closing {other rest otherRest : List Lexeme} (balanced : Balanced left)
    (otherBalanced : Balanced other)
    (same : left ++ .symbol .rightParen :: rest =
      other ++ .symbol .rightParen :: otherRest) :
    left = other ∧ rest = otherRest := by
  induction balanced generalizing other rest otherRest with
  | nil =>
      cases otherBalanced with
      | nil => exact ⟨rfl, (List.cons.inj same).2⟩
      | plain otherPlain otherBehind =>
          exact absurd (List.cons.inj same).1.symm (Lexeme.ne_rightParen otherPlain)
      | pair otherWithin otherBehind => cases same
  | plain plain behind induction =>
      cases otherBalanced with
      | nil => exact absurd (List.cons.inj same).1 (Lexeme.ne_rightParen plain)
      | plain otherPlain otherBehind =>
          rcases List.cons.inj same with ⟨rfl, sameRest⟩
          rcases induction otherBehind sameRest with ⟨rfl, rfl⟩
          exact ⟨rfl, rfl⟩
      | pair otherWithin otherBehind =>
          exact absurd (List.cons.inj same).1 (Lexeme.ne_leftParen plain)
  | pair within behind withinInduction induction =>
      cases otherBalanced with
      | nil => cases same
      | plain otherPlain otherBehind =>
          exact absurd (List.cons.inj same).1.symm (Lexeme.ne_leftParen otherPlain)
      | pair otherWithin otherBehind =>
          -- The inner lexemes end at the same place, and so do those behind.
          simp only [List.cons_append, List.append_assoc] at same
          rcases withinInduction otherWithin (List.cons.inj same).2 with
            ⟨rfl, sameRest⟩
          rcases induction otherBehind sameRest with ⟨rfl, rfl⟩
          exact ⟨rfl, rfl⟩

end Balanced

/-! ## The place of a pair -/

namespace Pair

variable {left right before inner after : List Lexeme}

theorem leftParen_mem (pair : Pair left before inner after) :
    .symbol .leftParen ∈ left := by
  rw [pair.whole]
  exact List.mem_append_right before List.mem_cons_self

theorem not_nil : ¬Pair [] before inner after := by
  intro pair
  cases pair.leftParen_mem

theorem of_cons {first : Lexeme} (noOpening : first ≠ .symbol .leftParen)
    (pair : Pair (first :: right) before inner after) :
    ∃ front, before = first :: front ∧ Pair right front inner after := by
  rcases pair with ⟨whole, within⟩
  cases before with
  | nil => exact absurd (List.cons.inj whole).1 noOpening
  | cons start front =>
      rcases List.cons.inj whole with ⟨rfl, behind⟩
      exact ⟨front, rfl, behind, within⟩

/-- A pair does not reach over the end of balanced lexemes. -/
theorem of_append (balanced : Balanced left)
    (pair : Pair (left ++ right) before inner after) :
    (∃ rest, after = rest ++ right ∧ Pair left before inner rest) ∨
      ∃ front, before = left ++ front ∧ Pair right front inner after := by
  induction balanced generalizing right before after with
  | nil => exact .inr ⟨before, rfl, pair⟩
  | plain plain behind induction =>
      rcases pair.of_cons (Lexeme.ne_leftParen plain) with ⟨front, rfl, later⟩
      rcases induction later with ⟨rest, rfl, inLeft⟩ | ⟨between, rfl, inRight⟩
      · exact .inl ⟨rest, rfl, congrArg _ inLeft.whole, inLeft.balanced⟩
      · exact .inr ⟨between, rfl, inRight⟩
  | @pair content tail contentBalanced behind contentInduction induction =>
      simp only [List.cons_append, List.append_assoc] at pair ⊢
      cases before with
      | nil =>
          have same := (List.cons.inj pair.whole).2
          rcases contentBalanced.eq_of_closing pair.balanced same with ⟨rfl, rfl⟩
          exact .inl ⟨tail, rfl, rfl, contentBalanced⟩
      | cons start front =>
          -- The other pair is in the content of this one or behind it.
          rcases List.cons.inj pair.whole with ⟨rfl, whole⟩
          rcases contentInduction ⟨whole, pair.balanced⟩ with
            ⟨rest, rfl, inContent⟩ | ⟨between, rfl, behindContent⟩
          · refine .inl ⟨rest ++ .symbol .rightParen :: tail, by simp, ?_, pair.balanced⟩
            simp [inContent.whole]
          · have noOpening : Lexeme.symbol .rightParen ≠ .symbol .leftParen := by decide
            rcases behindContent.of_cons noOpening with ⟨front, rfl, inRest⟩
            rcases induction inRest with ⟨rest, rfl, inTail⟩ | ⟨front, rfl, inRight⟩
            · refine .inl ⟨rest, rfl, ?_, pair.balanced⟩
              simp [inTail.whole]
            · exact .inr ⟨front, by simp, inRight⟩

theorem of_append_endOfInput (balanced : Balanced left)
    (pair : Pair (left ++ [.endOfInput]) before inner after) :
    ∃ rest, after = rest ++ [.endOfInput] ∧ Pair left before inner rest := by
  rcases pair.of_append balanced with found | ⟨front, -, behind⟩
  · exact found
  · have noOpening : Lexeme.endOfInput ≠ .symbol .leftParen := nofun
    rcases behind.of_cons noOpening with ⟨_, -, nothing⟩
    exact absurd nothing not_nil

end Pair

end LineBasic
