import LineBasic.Proofs.Printing.PathLexemes

/-! The literal that is printed but cannot be read.

Literals are read without their sign, and the digits of the smallest integer are
out of range without it. The text of an expression that holds it is read up to
the sign of the first such literal and fails at the digits behind. -/

namespace LineBasic

namespace Expression

theorem Writable.readable {expression : Expression}
    (writable : expression.Writable)
    (missing : Int64.minValue ∉ expression.ints) : expression.Readable := by
  refine ⟨writable, ?_⟩
  intro value member
  apply Int64.lt_of_le_of_ne (Int64.minValue_le value)
  intro same
  exact missing (same ▸ member)

end Expression

namespace Path

/-- The literals to the left of the operand, in the order in which they are
printed. -/
def intsBefore : Path → List Int64
  | root => []
  | under outer _ => outer.intsBefore
  | leftOf outer _ _ => outer.intsBefore
  | rightOf outer left _ => outer.intsBefore ++ left.ints

/-- Whether the path leads to the first literal of the value. -/
def LeadsToFirst (path : Path) (value : Int64) (whole : Expression) : Prop :=
  path.fill (.int value) = whole ∧ value ∉ path.intsBefore

theorem exists_leadsToFirst_fill {value : Int64} {node : Expression}
    (member : value ∈ node.ints) (outer : Path)
    (first : value ∉ outer.intsBefore) :
    ∃ path : Path, path.LeadsToFirst value (outer.fill node) := by
  -- The path grows downwards while the node gets smaller, to the left where it can.
  induction node generalizing outer with
  | int found =>
      have same : value = found := List.mem_singleton.mp member
      subst same
      exact ⟨outer, rfl, first⟩
  | var name => cases member
  | str text => cases member
  | unary op operand induction => exact induction member (.under outer op) first
  | binary left op right leftInduction rightInduction =>
      by_cases inLeft : value ∈ left.ints
      · exact leftInduction inLeft (.leftOf outer op right) first
      · have inRight := (List.mem_append.mp member).resolve_left inLeft
        apply rightInduction inRight (.rightOf outer left op)
        intro before
        exact (List.mem_append.mp before).elim first inLeft

/-! ## The text around an operand -/

theorem spelling_opening {needed : Bool} {lexemes : List Lexeme}
    {text rest : List Char} (behind : Spelling lexemes text rest) :
    ∃ front, Spelling (front ++ lexemes) ((opening needed).toList ++ text) rest := by
  cases needed with
  | true => exact ⟨[.symbol .leftParen], behind.leftParen⟩
  | false => exact ⟨[], behind⟩

/-- What is printed in front of an operand is spelled, as far as the literals in
it can be read. -/
theorem spelling_before {path : Path} {node : Expression}
    (writable : (path.fill node).Writable)
    (readable : Int64.minValue ∉ path.intsBefore) {lexemes : List Lexeme}
    {text rest : List Char} (behind : Spelling lexemes text rest) :
    ∃ front, Spelling (front ++ lexemes) ((path.before node).toList ++ text) rest := by
  -- From the operand outwards: what each frame puts in front joins the text behind.
  induction path generalizing node lexemes text with
  | root => exact ⟨[], behind⟩
  | under outer op induction =>
      rcases spelling_opening (behind.unaryOp op) with ⟨middle, spelled⟩
      rcases induction writable readable spelled with ⟨front, whole⟩
      exact ⟨front ++ middle ++ [.symbol op.symbol], by simpa [before] using whole⟩
  | leftOf outer op right induction =>
      rcases spelling_opening behind with ⟨middle, spelled⟩
      rcases induction writable readable spelled with ⟨front, whole⟩
      exact ⟨front ++ middle, by simpa [before] using whole⟩
  | rightOf outer left op induction =>
      have outerReadable : Int64.minValue ∉ outer.intsBefore :=
        fun member => readable (List.mem_append_left _ member)
      have inner : (Expression.binary left op node).Writable :=
        writable_of_fill writable
      have leftReadable : left.Readable := inner.left.readable fun member =>
        readable (List.mem_append_right _ member)
      have beside := leftReadable.spelling_parenthesized
        ((Slot.left op).encloses left) (breaks_binaryOp op text) (behind.binaryOp op)
      rcases spelling_opening beside with ⟨middle, spelled⟩
      rcases induction writable outerReadable spelled with ⟨front, whole⟩
      exact ⟨front ++ middle ++
        Expression.enclosed ((Slot.left op).encloses left) left.lexemes ++
          [.symbol op.symbol], by simpa [before] using whole⟩

theorem print_fill_int (path : Path) (value : Int64) :
    (path.fill (.int value)).print =
      path.before (.int value) ++ toString value ++ path.after (.int value) := by
  have bare : path.encloses (.int value) = false := by
    cases path <;> rfl
  rw [print_fill, bare]
  rfl

end Path

/-! ## Where reading fails -/

/-- The digits of the smallest integer, which stand for a number that is too large
by one. -/
def smallestDigits : String := "9223372036854775808"

theorem toString_minValue : toString Int64.minValue = "-" ++ smallestDigits := by
  decide

theorem smallestDigits_heads {behind : List Char} (breaks : Breaks behind) :
    (Defect.integerOverflow smallestDigits).Heads smallestDigits.toList behind := by
  have decimal : ∀ digit ∈ smallestDigits.toList, digit.isDigit = true :=
    List.all_eq_true.mp rfl
  have maximal : ∀ next ∈ behind.head?, next.isDigit = false := by
    intro next member
    exact isDigit_eq_false_of_not_isNameTail (breaks next member)
  exact .integerOverflow decimal maximal (by decide)

theorem Path.LeadsToFirst.lex_print {path : Path} {expression : Expression}
    (leads : path.LeadsToFirst Int64.minValue expression)
    (writable : expression.Writable) :
    let before := path.before (.int Int64.minValue) ++ "-"
    expression.print =
        before ++ smallestDigits ++ path.after (.int Int64.minValue) ∧
      lex expression.print =
        .error ⟨.integerOverflow smallestDigits, before.utf8ByteSize⟩ := by
  intro before
  rcases leads with ⟨rfl, readable⟩
  have printed : (path.fill (.int Int64.minValue)).print =
      before ++ smallestDigits ++ path.after (.int Int64.minValue) := by
    rw [print_fill_int, toString_minValue]
    simp [before, String.append_assoc]
  refine ⟨printed, ?_⟩
  let behind := (path.after (.int Int64.minValue)).toList
  have heads : (Defect.integerOverflow smallestDigits).Heads
      smallestDigits.toList behind :=
    smallestDigits_heads (path.breaks_after (.int Int64.minValue))
  have sign : Spelling [.symbol .minus]
      ('-' :: (smallestDigits.toList ++ behind)) (smallestDigits.toList ++ behind) :=
    .lexeme (.symbol .minus) (fun _ _ => rfl) (.rest heads.inked)
  rcases spelling_before writable readable sign with ⟨front, spelled⟩
  have whole : (path.fill (.int Int64.minValue)).print.toList =
      before.toList ++ (smallestDigits.toList ++ behind) := by
    simp [printed, behind]
  have spelling : Spelling (front ++ [.symbol .minus])
      (path.fill (.int Int64.minValue)).print.toList
      (smallestDigits.toList ++ behind) := by
    rw [whole]
    simpa [before] using spelled
  rw [← byteLength_toList]
  exact lex_eq_error_of_spelling whole spelling heads

namespace Expression

/-- The text of an expression is cut into lexemes exactly if no literal is the
smallest integer. Otherwise there is a first such literal, and the error names its
digits and the place right behind its sign. -/
theorem lex_print_fails_only_at_smallest {expression : Expression}
    (writable : expression.Writable) :
    ((∃ lexemes, lex expression.print = .ok lexemes) ↔
      Int64.minValue ∉ expression.ints) ∧
    (Int64.minValue ∈ expression.ints →
      ∃ path : Path, path.LeadsToFirst Int64.minValue expression) ∧
    ∀ path : Path, path.LeadsToFirst Int64.minValue expression →
      let before := path.before (.int Int64.minValue) ++ "-"
      expression.print = before ++ "9223372036854775808" ++
          path.after (.int Int64.minValue) ∧
        lex expression.print =
          .error ⟨.integerOverflow "9223372036854775808", before.utf8ByteSize⟩ := by
  have first (member : Int64.minValue ∈ expression.ints) :
      ∃ path : Path, path.LeadsToFirst Int64.minValue expression :=
    Path.exists_leadsToFirst_fill member .root List.not_mem_nil
  refine ⟨⟨?_, ?_⟩, first, fun path leads => leads.lex_print writable⟩
  · rintro ⟨lexemes, cut⟩ member
    rcases first member with ⟨path, leads⟩
    rw [(leads.lex_print writable).2] at cut
    cases cut
  · intro missing
    exact ⟨_, (writable.readable missing).lex_print⟩

/-- The second operand of a product under a sign, behind a string with a character
of two bytes and in front of a literal that could not be read either. -/
theorem lex_print_smallest_behind_string :
    let product := binary (int (-5)) .mul (int Int64.minValue)
    let expression := binary (binary (str "é") .lt (unary .neg product)) .or
      (int Int64.minValue)
    expression.print =
        "\"é\" < (-(-5*-9223372036854775808)) | -9223372036854775808" ∧
      lex expression.print =
        .error ⟨.integerOverflow "9223372036854775808", 14⟩ := by
  intro product expression
  let path : Path := .rightOf (.under (.rightOf (.leftOf .root .or
    (int Int64.minValue)) (str "é") .lt) .neg) (int (-5)) .mul
  have leads : path.LeadsToFirst Int64.minValue expression := ⟨rfl, by decide⟩
  have writable : expression.Writable := by decide
  have size : (path.before (int Int64.minValue) ++ "-").utf8ByteSize = 14 := by
    decide
  have failed : lex expression.print = .error ⟨.integerOverflow _, _⟩ :=
    ((lex_print_fails_only_at_smallest writable).2.2 path leads).2
  rw [size] at failed
  exact ⟨by decide, failed⟩

end Expression

end LineBasic
