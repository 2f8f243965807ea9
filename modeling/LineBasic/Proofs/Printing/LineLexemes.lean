import LineBasic.Proofs.Printing.PrintedGrouping
import LineBasic.Statement.Lexemes
import LineBasic.Statement.Printer

/-! The lexemes of printed lines.

The text of a line is cut into the lexemes that are told from its statement
without writing a text. What is printed after an expression or a number never
continues it, since it begins with a blank or an operator. -/

namespace LineBasic

/-! ## The lexemes of printed expressions -/

theorem Slot.encloses_eq (slot : Slot) (expression : Expression) :
    slot.encloses expression =
      (expression.isUnary || expression.bindsBelow slot.level) := by
  cases expression with
  | binary left op right => exact slot.encloses_binary left op right
  | _ => cases slot <;> rfl

theorem Expression.isUnary_or_bindsBelow_neg (expression : Expression) :
    (expression.isUnary || expression.bindsBelow UnaryOp.neg.priority) =
      !expression.isLeaf := by
  cases expression with
  | binary left op right => exact decide_eq_true op.priority_lt_neg
  | _ => rfl

theorem Expression.isUnary_or_bindsBelow_not (expression : Expression) :
    (expression.isUnary || expression.bindsBelow UnaryOp.not.priority) =
      expression.isUnary := by
  cases expression with
  | binary left op right => exact decide_eq_false (Nat.lt_asymm op.not_priority_lt)
  | _ => rfl

theorem Grouping.enclosedIf_lexemes (needed : Bool) (inner : Grouping) :
    (enclosedIf needed inner).lexemes =
      Expression.enclosed needed inner.lexemes := by
  cases needed <;> rfl

namespace Expression

/-- What is printed between parentheses is what the rule for lexemes encloses. -/
theorem grouping_lexemes (expression : Expression) :
    expression.grouping.lexemes = expression.lexemes := by
  induction expression with
  | int value =>
      rw [grouping, lexemes]
      split <;> rfl
  | var name | str text => rfl
  | unary op operand induction =>
      rw [grouping, Grouping.lexemes, Grouping.enclosedIf_lexemes, induction,
        Slot.encloses_eq, Slot.level]
      cases op with
      | neg => rw [isUnary_or_bindsBelow_neg, lexemes]; rfl
      | not => rw [isUnary_or_bindsBelow_not, lexemes]; rfl
  | binary left op right leftInduction rightInduction =>
      rw [grouping, Grouping.lexemes, Grouping.enclosedIf_lexemes,
        Grouping.enclosedIf_lexemes, leftInduction, rightInduction,
        Slot.encloses_eq, Slot.encloses_eq, lexemes]
      rfl

theorem read?_lexemes (expression : Expression) :
    read? (expression.lexemes ++ [.endOfInput]) = some expression.signless := by
  rw [← grouping_lexemes]
  exact expression.read?_grouping

/-- The text of an expression spells its lexemes in front of all that does not
continue a name or a number. -/
theorem Readable.spelling {expression : Expression} (readable : expression.Readable)
    {lexemes : List Lexeme} {text rest : List Char} (breaks : Breaks text)
    (behind : Spelling lexemes text rest) :
    Spelling (expression.lexemes ++ lexemes)
      (expression.print.toList ++ text) rest := by
  rw [← grouping_lexemes, ← grouping_text readable.ints]
  exact expression.grouping.spelling readable.writable_grouping
    readable.unsigned_grouping breaks behind

end Expression

/-! ## Words and numbers -/

theorem breaks_nil : Breaks [] := by simp [Breaks]

theorem breaks_blank (text : List Char) : Breaks (' ' :: text) := by
  intro next member
  cases member
  decide

section

variable {lexemes : List Lexeme} {text rest : List Char}

theorem Spelling.space (behind : Spelling lexemes text rest) :
    Spelling lexemes (' ' :: text) rest :=
  .blank (by decide) behind

theorem Spelling.word {word : String} (shaped : isName word = true)
    (breaks : Breaks text) (behind : Spelling lexemes text rest) :
    Spelling (.ident word :: lexemes) (word.toList ++ text) rest :=
  .lexeme (.ident shaped) breaks behind

theorem toList_toString_number (number : LineNumber) :
    (toString number).toList = Nat.toDigits 10 number.toNat := Nat.toList_repr

theorem Spelling.number (number : LineNumber) (breaks : Breaks text)
    (behind : Spelling lexemes text rest) :
    Spelling (number.lexeme :: lexemes) ((toString number).toList ++ text) rest := by
  have inRange : number.toNat ≤ Lexeme.largestInt := by
    have bound := number.toNat_lt
    rw [Lexeme.largestInt]
    omega
  rw [toList_toString_number]
  apply Spelling.lexeme (spelled_toDigits inRange) _ behind
  intro next member
  exact isDigit_eq_false_of_not_isNameTail (breaks next member)

end

/-! ## The lexemes of printed lines -/

namespace Statement

/-- What follows the keyword and one blank. -/
def tail : Statement → String
  | remark text => text
  | goto target => toString target
  | print value => value.print
  | input name => name
  | branch condition target => condition.print ++ " THEN " ++ toString target
  | assign name value => name ++ " = " ++ value.print

theorem text_eq_keyword_append_tail (statement : Statement) :
    statement.text = statement.keyword ++ " " ++ statement.tail := by
  cases statement <;> simp [text, keyword, tail, String.append_assoc]

theorem isName_keyword (statement : Statement) :
    isName statement.keyword = true := by
  cases statement <;> simp only [keyword] <;> decide

/-- The variable to which a statement gives a value. -/
def assigned? : Statement → Option String
  | input name | assign name _ => some name
  | remark _ | goto _ | print _ | branch _ _ => none

/-- The expression whose value a statement takes. -/
def evaluated? : Statement → Option Expression
  | print value | assign _ value => some value
  | branch condition _ => some condition
  | remark _ | goto _ | input _ => none

/-- A statement whose variable and expression can be read. -/
structure Readable (statement : Statement) : Prop where
  assigned : ∀ name ∈ statement.assigned?, isName name = true
  evaluated : ∀ value ∈ statement.evaluated?, value.Readable

instance (statement : Statement) : Decidable statement.Readable :=
  decidable_of_iff
    ((∀ name ∈ statement.assigned?, isName name = true) ∧
      ∀ value ∈ statement.evaluated?, value.Readable)
    ⟨fun both => ⟨both.1, both.2⟩,
      fun readable => ⟨readable.assigned, readable.evaluated⟩⟩

/-- What stands behind the keyword spells the lexemes of the statement. -/
theorem Readable.spelling_tail {statement : Statement}
    (readable : statement.Readable) {behind : List Lexeme}
    (listed : statement.lexemes? = some behind) :
    Spelling behind statement.tail.toList [] := by
  -- Each text is spelled from its end: a piece needs what follows it to be apart.
  have finish : Spelling [] [] [] := .rest (by simp)
  cases statement with
  | remark text => cases listed
  | goto target =>
      cases listed
      simpa [tail] using Spelling.number target breaks_nil finish
  | print value =>
      cases listed
      simpa [tail] using (readable.evaluated value rfl).spelling breaks_nil finish
  | input name =>
      cases listed
      simpa [tail] using
        Spelling.word (readable.assigned name rfl) breaks_nil finish
  | branch condition target =>
      cases listed
      have shaped : isName "THEN" = true := by decide
      have jump := Spelling.word shaped (breaks_blank _)
        (Spelling.number target breaks_nil finish).space
      have whole := (readable.evaluated condition rfl).spelling (breaks_blank _)
        jump.space
      simpa [tail] using whole
  | assign name value =>
      cases listed
      have given := (readable.evaluated value rfl).spelling breaks_nil finish
      have equals : Spelling (.symbol .equal :: (value.lexemes ++ []))
          ('=' :: ' ' :: (value.print.toList ++ [])) [] :=
        .lexeme (.symbol .equal) (fun _ _ => rfl) given.space
      have whole := Spelling.word (readable.assigned name rfl) (breaks_blank _)
        equals.space
      simpa [tail] using whole

end Statement

namespace Line

/-- The text of a line that is no remark is cut into the lexemes of the line and
nothing else. -/
theorem lex_text_eq_lexemes {line : Line} (readable : line.statement.Readable)
    (worded : ∀ text, line.statement ≠ .remark text) :
    ∃ lexemes, line.lexemes? = some lexemes ∧ lex line.text = .ok lexemes := by
  have listed : ∃ behind, line.statement.lexemes? = some behind := by
    cases equal : line.statement with
    | remark text => exact absurd equal (worded text)
    | _ => exact ⟨_, rfl⟩
  rcases listed with ⟨behind, listed⟩
  refine ⟨line.number.lexeme :: .ident line.statement.keyword :: behind ++
    [.endOfInput], by rw [lexemes?, listed]; rfl, ?_⟩
  apply lex_eq_ok_iff_spelling.mpr
  refine ⟨line.number.lexeme :: .ident line.statement.keyword :: behind, rfl, ?_⟩
  have keyword := Spelling.word line.statement.isName_keyword (breaks_blank _)
    (readable.spelling_tail listed).space
  have whole := Spelling.number line.number (breaks_blank _) keyword.space
  simpa [text, Statement.text_eq_keyword_append_tail] using whole

/-- A string that looks like the end of the line, a negative literal behind a
comparison, a sign in front of a name, and the largest line number. -/
theorem lex_text_branch :
    let condition := Expression.binary
      (.binary (.str "THEN 5)") .ne (.int (-3))) .mul (.unary .neg (.var "x_1"))
    lex (text ⟨10, .branch condition 4294967295⟩) =
      .ok [.int 10, .ident "IF", .symbol .leftParen, .str "THEN 5)",
        .symbol .notEqual, .symbol .minus, .int 3, .symbol .rightParen,
        .symbol .star, .symbol .leftParen, .symbol .minus, .ident "x_1",
        .symbol .rightParen, .ident "THEN", .int 4294967295, .endOfInput] := by
  intro condition
  have readable : (Statement.branch condition 4294967295).Readable := by decide
  have worded : ∀ text, Statement.branch condition 4294967295 ≠ .remark text :=
    nofun
  rcases @lex_text_eq_lexemes ⟨10, _⟩ readable worded with ⟨lexemes, listed, cut⟩
  cases listed
  rw [cut]
  decide

end Line

end LineBasic
