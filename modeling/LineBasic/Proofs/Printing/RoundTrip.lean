import LineBasic.Proofs.Printing.PrintedGrouping

/-! Printing and reading again.

What comes back as it was has names, strings and literals that are lexemes. -/

namespace LineBasic

/-! ## What can be read at all -/

theorem Spelling.exists_spelled {lexemes : List Lexeme} {text rest : List Char}
    (behind : Spelling lexemes text rest) :
    ∀ lexeme ∈ lexemes, ∃ spelling, lexeme.Spelled spelling := by
  induction behind with
  | rest inked => simp
  | blank skipped behind induction => exact induction
  | @lexeme first lexemes spelling text rest spelled apart behind induction =>
      intro lexeme member
      rcases List.mem_cons.mp member with rfl | later
      · exact ⟨spelling, spelled⟩
      · exact induction lexeme later

theorem int64_ofNat_nonneg {value : Nat} (inRange : value ≤ Lexeme.largestInt) :
    0 ≤ Int64.ofNat value := by
  rw [Lexeme.largestInt] at inRange
  rw [Int64.le_iff_toInt_le, Int64.toInt_zero,
    Int64.toInt_ofNat_of_lt (by omega)]
  exact Int.natCast_nonneg value

/-- Leaves whose lexemes have a spelling can be written as they are. -/
theorem Grouping.writable_of_spelled {grouping : Grouping}
    (spelled : ∀ lexeme ∈ grouping.lexemes, ∃ spelling, lexeme.Spelled spelling) :
    grouping.tree.Writable ∧ ∀ value ∈ grouping.tree.ints, 0 ≤ value := by
  induction grouping with
  | int value =>
      refine ⟨⟨by simp [tree, Expression.names],
        by simp [tree, Expression.texts]⟩, ?_⟩
      intro found member
      rw [List.mem_singleton.mp member]
      rcases spelled (.int value) List.mem_cons_self with ⟨digits, written⟩
      cases written with
      | int nonempty decimal inRange => exact int64_ofNat_nonneg inRange
  | var name =>
      refine ⟨⟨?_, by simp [tree, Expression.texts]⟩,
        by simp [tree, Expression.ints]⟩
      intro found member
      rw [List.mem_singleton.mp member]
      rcases spelled (.ident name) List.mem_cons_self with ⟨_, written⟩
      cases written with
      | ident shaped => exact shaped
  | str text =>
      refine ⟨⟨by simp [tree, Expression.names], ?_⟩,
        by simp [tree, Expression.ints]⟩
      intro found member
      rw [List.mem_singleton.mp member]
      rcases spelled (.str text) List.mem_cons_self with ⟨_, written⟩
      cases written with
      | str unquoted => exact unquoted
  | unary op operand induction =>
      rcases induction fun lexeme member =>
        spelled lexeme (List.mem_cons_of_mem _ member) with ⟨writable, unsigned⟩
      exact ⟨⟨writable.names, writable.texts⟩, unsigned⟩
  | binary left op right leftInduction rightInduction =>
      rcases leftInduction fun lexeme member =>
        spelled lexeme (List.mem_append_left _ member) with
        ⟨leftWritable, leftUnsigned⟩
      rcases rightInduction fun lexeme member =>
        spelled lexeme (List.mem_append_right _ (List.mem_cons_of_mem _ member))
        with ⟨rightWritable, rightUnsigned⟩
      refine ⟨leftWritable.binary rightWritable, ?_⟩
      intro value member
      rcases List.mem_append.mp member with inLeft | inRight
      · exact leftUnsigned value inLeft
      · exact rightUnsigned value inRight
  | enclosed inner induction =>
      exact induction fun lexeme member =>
        spelled lexeme (List.mem_append_left _ (List.mem_cons_of_mem _ member))

namespace Expression

theorem writable_of_ofText? {text : String} {expression : Expression}
    (read : ofText? text = some expression) :
    expression.Writable ∧ ∀ value ∈ expression.ints, 0 ≤ value := by
  rcases ofText?_eq_some_iff.mp read with ⟨lexemes, cut, parsed⟩
  rcases read?_eq_some_iff.mp parsed with ⟨grouping, -, rfl, rfl⟩
  rcases lex_eq_ok_iff_spelling.mp cut with ⟨spelled, equal, spelling⟩
  rw [List.append_cancel_right_eq] at equal
  subst equal
  exact Grouping.writable_of_spelled spelling.exists_spelled

theorem readable_of_unsigned {expression : Expression}
    (writable : expression.Writable)
    (unsigned : ∀ value ∈ expression.ints, 0 ≤ value) : expression.Readable := by
  refine ⟨writable, ?_⟩
  intro value member
  have bound := Int64.le_iff_toInt_le.mp (unsigned value member)
  rw [Int64.lt_iff_toInt_lt, Int64.toInt_minValue]
  rw [Int64.toInt_zero] at bound
  omega

/-! ## The round trip -/

/-- A readable expression is printed so that it is read again, with its negative
literals as negations. The expression itself comes back exactly if its names
and strings can be written and its literals have no sign. -/
theorem ofText?_print (expression : Expression) :
    (expression.Readable →
      ofText? expression.print = some expression.signless) ∧
    (ofText? expression.print = some expression ↔
      expression.Writable ∧ ∀ value ∈ expression.ints, 0 ≤ value) := by
  refine ⟨Readable.ofText?_print_eq, writable_of_ofText?, ?_⟩
  intro unsigned
  have read := (readable_of_unsigned unsigned.1 unsigned.2).ofText?_print_eq
  rw [signless_eq_self unsigned.2] at read
  exact read

/-- A negative literal, a string that looks like code, and a negation of truth
as the left operand of a tighter operator. -/
theorem ofText?_print_mixed :
    let expression := binary
      (unary .not (binary (str "é) & (") .ne (int (-3)))) .mul
      (binary (var "x_1") .mul (int (-9223372036854775807)))
    ofText? expression.print = some (binary
      (unary .not (binary (str "é) & (") .ne (unary .neg (int 3)))) .mul
      (binary (var "x_1") .mul (unary .neg (int 9223372036854775807)))) := by
  intro expression
  have ints : expression.ints = [-3, -9223372036854775807] := rfl
  have readable : expression.Readable := by
    refine ⟨⟨by decide, by decide⟩, ?_⟩
    rw [ints, List.forall_mem_cons, List.forall_mem_singleton]
    decide
  exact (ofText?_print expression).1 readable

end Expression

end LineBasic
