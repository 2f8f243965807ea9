import LineBasic.Proofs.Printing.LineLexemes
import LineBasic.Proofs.Printing.RoundTrip

/-! What the text of a line tells about the line.

The number and the keyword of a line end at the first blanks of its text. What
follows is a remark as it stands, or lexemes that are read back as what was
printed. -/

namespace LineBasic

/-! ## Runs of letters, digits and underscores -/

theorem notMem_of_isNameTail {run : List Char} {mark : Char}
    (inside : ∀ character ∈ run, isNameTail character = true)
    (outside : isNameTail mark = false) : mark ∉ run := by
  intro member
  rw [inside mark member] at outside
  cases outside

theorem isNameTail_of_mem_name {name : String} (shaped : isName name = true) :
    ∀ character ∈ name.toList, isNameTail character = true := by
  rcases exists_cons_of_isName shaped with ⟨first, tail, equal, -, inside⟩
  rw [equal]
  exact inside

theorem isNameTail_of_mem_toDigits (value : Nat) :
    ∀ character ∈ Nat.toDigits 10 value, isNameTail character = true := by
  intro character member
  exact isNameTail_of_isDigit (isDigit_of_mem_toDigits member)

/-- What stands in front of the first blank, and what stands behind it. -/
theorem eq_of_run_blank_eq {run other behind otherBehind : List Char}
    (inside : ∀ character ∈ run, isNameTail character = true)
    (otherInside : ∀ character ∈ other, isNameTail character = true)
    (same : run ++ ' ' :: behind = other ++ ' ' :: otherBehind) :
    run = other ∧ behind = otherBehind := by
  have front := takeWhile_run inside (breaks_blank behind)
  have back := dropWhile_run inside (breaks_blank behind)
  rw [same, takeWhile_run otherInside (breaks_blank otherBehind)] at front
  rw [same, dropWhile_run otherInside (breaks_blank otherBehind)] at back
  exact ⟨front.symm, (List.cons.inj back).2.symm⟩

/-! ## Expressions on one row -/

namespace Expression

/-- An expression that is printed on one row and read back as it is. -/
structure Listable (expression : Expression) : Prop
    extends expression.Writable where
  unbroken : ∀ text ∈ expression.texts, '\n' ∉ text.toList
  unsigned : ∀ value ∈ expression.ints, 0 ≤ value

instance (expression : Expression) : Decidable expression.Listable :=
  decidable_of_iff
    (expression.Writable ∧ (∀ text ∈ expression.texts, '\n' ∉ text.toList) ∧
      expression.ints.all (fun value => decide (0 ≤ value)) = true)
    ⟨fun all => ⟨all.1, all.2.1, by simpa using all.2.2⟩,
      fun listable => ⟨listable.toWritable, listable.unbroken,
        by simpa using listable.unsigned⟩⟩

theorem Listable.readable {expression : Expression}
    (listable : expression.Listable) : expression.Readable :=
  readable_of_unsigned listable.toWritable listable.unsigned

theorem Listable.operand {op : UnaryOp} {inner : Expression}
    (listable : (unary op inner).Listable) : inner.Listable :=
  ⟨listable.toWritable.operand, listable.unbroken, listable.unsigned⟩

theorem Listable.left {left right : Expression} {op : BinaryOp}
    (listable : (binary left op right).Listable) : left.Listable :=
  ⟨listable.toWritable.left, (List.forall_mem_append.mp listable.unbroken).1,
    (List.forall_mem_append.mp listable.unsigned).1⟩

theorem Listable.right {left right : Expression} {op : BinaryOp}
    (listable : (binary left op right).Listable) : right.Listable :=
  ⟨listable.toWritable.right, (List.forall_mem_append.mp listable.unbroken).2,
    (List.forall_mem_append.mp listable.unsigned).2⟩

theorem newline_notMem_parenthesized {needed : Bool} {text : String}
    (unbroken : '\n' ∉ text.toList) :
    '\n' ∉ (parenthesized needed text).toList := by
  cases needed <;> simp [parenthesized, unbroken]

theorem Listable.newline_notMem_print {expression : Expression}
    (listable : expression.Listable) : '\n' ∉ expression.print.toList := by
  induction expression with
  | int value =>
      have unsigned := listable.unsigned value (List.mem_singleton.mpr rfl)
      rw [print, toString_of_nonneg unsigned]
      exact notMem_of_isNameTail (isNameTail_of_mem_toDigits _) (by decide)
  | var name =>
      have shaped := listable.names name (List.mem_singleton.mpr rfl)
      exact notMem_of_isNameTail (isNameTail_of_mem_name shaped) (by decide)
  | str text =>
      simpa [print] using listable.unbroken text (List.mem_singleton.mpr rfl)
  | unary op operand induction =>
      have operandUnbroken := induction listable.operand
      have mark : '\n' ∉ op.written.toList := by cases op <;> decide
      simp [print, mark, newline_notMem_parenthesized operandUnbroken]
  | binary left op right leftInduction rightInduction =>
      have leftUnbroken := leftInduction listable.left
      have rightUnbroken := rightInduction listable.right
      have mark : '\n' ∉ op.written.toList := by cases op <;> decide
      simp [print, mark, newline_notMem_parenthesized leftUnbroken,
        newline_notMem_parenthesized rightUnbroken]

/-- Expressions without signed literals that have the same lexemes are the same. -/
theorem eq_of_lexemes_eq {expression other : Expression}
    (unsigned : ∀ value ∈ expression.ints, 0 ≤ value)
    (otherUnsigned : ∀ value ∈ other.ints, 0 ≤ value)
    (same : expression.lexemes = other.lexemes) : expression = other := by
  have read := expression.read?_lexemes
  rw [same, other.read?_lexemes, signless_eq_self unsigned,
    signless_eq_self otherUnsigned] at read
  exact (Option.some.inj read).symm

end Expression

/-! ## Statements and lines on one row -/

theorem Spelling.lexemes_eq {lexemes others : List Lexeme} {text : List Char}
    (spelling : Spelling lexemes text []) (other : Spelling others text []) :
    lexemes = others := by
  have run := Cursor.tokenize_of_spelled_text spelling 0
  rw [Cursor.tokenize_of_spelled_text other 0] at run
  exact (List.append_cancel_right (Except.ok.inj (Prod.mk.inj run).1)).symm

theorem LineNumber.eq_of_toString_eq {number other : LineNumber}
    (same : (toString number).toList = (toString other).toList) :
    number = other := by
  rw [toList_toString_number, toList_toString_number] at same
  apply UInt32.toNat_inj.mp
  rw [← Nat.ofDigitChars_ten_toDigits (n := number.toNat), same,
    Nat.ofDigitChars_ten_toDigits]

theorem LineNumber.eq_of_lexeme_eq {number other : LineNumber}
    (same : number.lexeme = other.lexeme) : number = other := by
  have bound := number.toNat_lt
  have otherBound := other.toNat_lt
  have values := congrArg Int64.toInt (Lexeme.int.inj same)
  rw [Int64.toInt_ofNat_of_lt (by omega), Int64.toInt_ofNat_of_lt (by omega)]
    at values
  exact UInt32.toNat_inj.mp (Int.ofNat.inj values)

namespace Statement

/-- The text of a remark. -/
def remarked? : Statement → Option String
  | remark text => some text
  | goto _ | print _ | input _ | branch _ _ | assign _ _ => none

/-- A statement that is printed on one row and whose variable and expression are
read back as they are. -/
structure Listable (statement : Statement) : Prop where
  assigned : ∀ name ∈ statement.assigned?, isName name = true
  evaluated : ∀ value ∈ statement.evaluated?, value.Listable
  remarked : ∀ text ∈ statement.remarked?, '\n' ∉ text.toList

instance (statement : Statement) : Decidable statement.Listable :=
  decidable_of_iff
    ((∀ name ∈ statement.assigned?, isName name = true) ∧
      (∀ value ∈ statement.evaluated?, value.Listable) ∧
      ∀ text ∈ statement.remarked?, '\n' ∉ text.toList)
    ⟨fun all => ⟨all.1, all.2.1, all.2.2⟩, fun listable =>
      ⟨listable.assigned, listable.evaluated, listable.remarked⟩⟩

theorem Listable.readable {statement : Statement}
    (listable : statement.Listable) : statement.Readable :=
  ⟨listable.assigned, fun value member => (listable.evaluated value member).readable⟩

theorem Listable.newline_notMem_tail {statement : Statement}
    (listable : statement.Listable) : '\n' ∉ statement.tail.toList := by
  have noBreak : isNameTail '\n' = false := by decide
  have number (target : LineNumber) : '\n' ∉ (toString target).toList := by
    rw [toList_toString_number]
    exact notMem_of_isNameTail (isNameTail_of_mem_toDigits _) noBreak
  cases statement with
  | remark text => exact listable.remarked text rfl
  | goto target => exact number target
  | print value => exact (listable.evaluated value rfl).newline_notMem_print
  | input name =>
      exact notMem_of_isNameTail
        (isNameTail_of_mem_name (listable.assigned name rfl)) noBreak
  | branch condition target =>
      simp [tail, number, (listable.evaluated condition rfl).newline_notMem_print]
  | assign name value =>
      have inName := notMem_of_isNameTail
        (isNameTail_of_mem_name (listable.assigned name rfl)) noBreak
      simp [tail, inName, (listable.evaluated value rfl).newline_notMem_print]

/-- The keyword tells the kind of a statement, and what stands behind it tells
the rest. -/
theorem eq_of_tail_eq {statement other : Statement}
    (listable : statement.Listable) (otherListable : other.Listable)
    (sameKeyword : statement.keyword = other.keyword)
    (sameTail : statement.tail = other.tail) : statement = other := by
  -- A keyword before a jump may stand in a string too, so that the tail is not cut
  -- at words but into lexemes.
  have sameLexemes {behind otherBehind : List Lexeme}
      (listed : statement.lexemes? = some behind)
      (otherListed : other.lexemes? = some otherBehind) :
      behind = otherBehind := by
    have spelling := listable.readable.spelling_tail listed
    rw [sameTail] at spelling
    exact spelling.lexemes_eq (otherListable.readable.spelling_tail otherListed)
  have sameExpression {value otherValue : Expression}
      (evaluated : value ∈ statement.evaluated?)
      (otherEvaluated : otherValue ∈ other.evaluated?)
      (same : value.lexemes = otherValue.lexemes) : value = otherValue :=
    Expression.eq_of_lexemes_eq (listable.evaluated value evaluated).unsigned
      (otherListable.evaluated otherValue otherEvaluated).unsigned same
  cases statement with
  | remark text =>
      cases other with
      | remark otherText => exact congrArg remark sameTail
      | _ => simp [keyword] at sameKeyword
  | goto target =>
      cases other with
      | goto otherTarget =>
          have sameTarget := (List.cons.inj (sameLexemes rfl rfl)).1
          exact congrArg goto (LineNumber.eq_of_lexeme_eq sameTarget)
      | _ => simp [keyword] at sameKeyword
  | print value =>
      cases other with
      | print otherValue =>
          exact congrArg print (sameExpression rfl rfl (sameLexemes rfl rfl))
      | _ => simp [keyword] at sameKeyword
  | input name =>
      cases other with
      | input otherName => exact congrArg input sameTail
      | _ => simp [keyword] at sameKeyword
  | branch condition target =>
      cases other with
      | branch otherCondition otherTarget =>
          rcases List.append_inj' (sameLexemes rfl rfl) rfl with
            ⟨conditions, behind⟩
          have sameTarget := (List.cons.inj (List.cons.inj behind).2).1
          rw [sameExpression rfl rfl conditions,
            LineNumber.eq_of_lexeme_eq sameTarget]
      | _ => simp [keyword] at sameKeyword
  | assign name value =>
      cases other with
      | assign otherName otherValue =>
          rcases List.cons.inj (sameLexemes rfl rfl) with ⟨names, behind⟩
          have sameName := Lexeme.ident.inj names
          rw [sameName, sameExpression rfl rfl (List.cons.inj behind).2]
      | _ => simp [keyword] at sameKeyword

end Statement

namespace Line

theorem toList_text (line : Line) :
    line.text.toList = (toString line.number).toList ++ ' ' ::
      (line.statement.keyword.toList ++ ' ' :: line.statement.tail.toList) := by
  simp [text, Statement.text_eq_keyword_append_tail]

theorem newline_notMem_text {line : Line} (listable : line.statement.Listable) :
    '\n' ∉ line.text.toList := by
  have noBreak : isNameTail '\n' = false := by decide
  have inNumber := notMem_of_isNameTail
    (isNameTail_of_mem_toDigits line.number.toNat) noBreak
  have inKeyword := notMem_of_isNameTail
    (isNameTail_of_mem_name line.statement.isName_keyword) noBreak
  rw [toList_text, toList_toString_number]
  simp [inNumber, inKeyword, listable.newline_notMem_tail]

theorem toList_text_ne_nil (line : Line) : line.text.toList ≠ [] := by
  simp [toList_text]

theorem eq_of_text_eq {line other : Line} (listable : line.statement.Listable)
    (otherListable : other.statement.Listable) (same : line.text = other.text) :
    line = other := by
  have chars := congrArg String.toList same
  rw [toList_text, toList_text, toList_toString_number,
    toList_toString_number] at chars
  rcases eq_of_run_blank_eq (isNameTail_of_mem_toDigits _)
    (isNameTail_of_mem_toDigits _) chars with ⟨sameDigits, behind⟩
  rcases eq_of_run_blank_eq
    (isNameTail_of_mem_name line.statement.isName_keyword)
    (isNameTail_of_mem_name other.statement.isName_keyword) behind with
    ⟨sameKeyword, sameTail⟩
  rw [← toList_toString_number, ← toList_toString_number] at sameDigits
  have sameNumber := LineNumber.eq_of_toString_eq sameDigits
  have sameStatement := Statement.eq_of_tail_eq listable otherListable
    (String.toList_inj.mp sameKeyword) (String.toList_inj.mp sameTail)
  cases line
  cases other
  cases sameNumber
  cases sameStatement
  rfl

end Line

end LineBasic
