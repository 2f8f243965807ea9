import LineBasic.Cursor
import LineBasic.Expression.Leaves
import LineBasic.Proofs.Lexing.Tokenize
import LineBasic.Proofs.Printing.Decimal
import LineBasic.Proofs.Reading.Unambiguous

/-! Groupings as text.

The text of a grouping is cut into the lexemes of the grouping, whatever
parentheses it has, as long as names and strings can be written and literals
have no sign. The text is read as the expression exactly if the grouping fits. -/

namespace LineBasic

/-- The expression that a whole text stands for, if there is one. -/
def Expression.ofText? (text : String) : Option Expression :=
  match lex text with
  | .ok lexemes => read? lexemes
  | .error _ => none

theorem Expression.ofText?_eq_some_iff {text : String} {whole : Expression} :
    ofText? text = some whole ↔
      ∃ lexemes, lex text = .ok lexemes ∧ read? lexemes = some whole := by
  rw [ofText?]
  cases lex text with
  | ok lexemes => simp
  | error failure => simp

/-- Names that are read as names, and strings that do not end early. -/
structure Expression.Writable (expression : Expression) : Prop where
  names : ∀ name ∈ expression.names, isName name = true
  texts : ∀ text ∈ expression.texts, '"' ∉ text.toList

instance (expression : Expression) : Decidable expression.Writable :=
  decidable_of_iff
    ((∀ name ∈ expression.names, isName name = true) ∧
      ∀ text ∈ expression.texts, '"' ∉ text.toList)
    ⟨fun both => ⟨both.1, both.2⟩, fun writable => ⟨writable.names, writable.texts⟩⟩

namespace Expression.Writable

theorem operand {op : UnaryOp} {inner : Expression}
    (writable : (unary op inner).Writable) : inner.Writable :=
  ⟨writable.names, writable.texts⟩

theorem left {op : BinaryOp} {left right : Expression}
    (writable : (binary left op right).Writable) : left.Writable :=
  ⟨fun name member => writable.names name (List.mem_append_left _ member),
    fun text member => writable.texts text (List.mem_append_left _ member)⟩

theorem right {op : BinaryOp} {left right : Expression}
    (writable : (binary left op right).Writable) : right.Writable :=
  ⟨fun name member => writable.names name (List.mem_append_right _ member),
    fun text member => writable.texts text (List.mem_append_right _ member)⟩

theorem binary {left right : Expression} {op : BinaryOp}
    (leftWritable : left.Writable) (rightWritable : right.Writable) :
    (Expression.binary left op right).Writable := by
  constructor
  · intro name member
    rcases List.mem_append.mp member with inLeft | inRight
    · exact leftWritable.names name inLeft
    · exact rightWritable.names name inRight
  · intro text member
    rcases List.mem_append.mp member with inLeft | inRight
    · exact leftWritable.texts text inLeft
    · exact rightWritable.texts text inRight

end Expression.Writable

/-- The text of a grouping, with all its parentheses and no others. -/
def Grouping.text : Grouping → String
  | int value => toString value
  | var name => name
  | str text => "\"" ++ text ++ "\""
  | unary op operand => op.written ++ operand.text
  | binary left op right => left.text ++ op.written ++ right.text
  | enclosed inner => "(" ++ inner.text ++ ")"

/-! ## Spelling piece by piece -/

/-- Whether names and numbers end in front of the text. -/
def Breaks (text : List Char) : Prop :=
  ∀ next ∈ text.head?, isNameTail next = false

section

variable {lexemes : List Lexeme} {text rest : List Char}

theorem Spelling.leftParen (behind : Spelling lexemes text rest) :
    Spelling (.symbol .leftParen :: lexemes) ('(' :: text) rest :=
  .lexeme (.symbol .leftParen) (fun _ _ => rfl) behind

theorem Spelling.rightParen (behind : Spelling lexemes text rest) :
    Spelling (.symbol .rightParen :: lexemes) (')' :: text) rest :=
  .lexeme (.symbol .rightParen) (fun _ _ => rfl) behind

theorem Spelling.unaryOp (op : UnaryOp) (behind : Spelling lexemes text rest) :
    Spelling (.symbol op.symbol :: lexemes) (op.written.toList ++ text) rest := by
  cases op <;> exact .lexeme (.symbol _) (fun _ _ => rfl) behind

/-- Between blanks every operator stands apart, and no other operator would be
read on. -/
theorem Spelling.binaryOp (op : BinaryOp) (behind : Spelling lexemes text rest) :
    Spelling (.symbol op.symbol :: lexemes) (op.written.toList ++ text) rest := by
  have blank : isBlank ' ' = true := by decide
  have spaced : Spelling (.symbol op.symbol :: lexemes)
      (' ' :: (op.symbol.spelling.toList ++ ' ' :: text)) rest := by
    refine .blank blank (.lexeme (.symbol op.symbol) ?_ (.blank blank behind))
    intro next member
    cases member
    exact Lexeme.readsOn_of_isBlank _ blank
  cases op with
  | add | sub | mul | div | mod =>
      exact .lexeme (.symbol _) (fun _ _ => rfl) behind
  | _ => exact spaced

theorem breaks_binaryOp (op : BinaryOp) (text : List Char) :
    Breaks (op.written.toList ++ text) := by
  intro next member
  cases op <;> cases member <;> decide

theorem breaks_rightParen (text : List Char) : Breaks (')' :: text) := by
  intro next member
  cases member
  decide

/-- The text of a grouping spells its lexemes in front of all that does not
continue a name or a number. -/
theorem Grouping.spelling (grouping : Grouping)
    (writable : grouping.tree.Writable)
    (unsigned : ∀ value ∈ grouping.tree.ints, 0 ≤ value)
    (breaks : Breaks text) (behind : Spelling lexemes text rest) :
    Spelling (grouping.lexemes ++ lexemes) (grouping.text.toList ++ text) rest := by
  induction grouping generalizing lexemes text with
  | int value =>
      have spelled := spelled_toString (unsigned value (List.mem_singleton.mpr rfl))
      have apart : ∀ next ∈ text.head?, next.isDigit = false := by
        intro next member
        exact isDigit_eq_false_of_not_isNameTail (breaks next member)
      exact .lexeme spelled apart behind
  | var name =>
      exact .lexeme (.ident (writable.names name (List.mem_singleton.mpr rfl)))
        breaks behind
  | str content =>
      have spelled := Spelling.lexeme
        (.str (writable.texts content (List.mem_singleton.mpr rfl)))
        (fun _ _ => rfl) behind
      simpa [Grouping.text, Grouping.lexemes] using spelled
  | unary op operand induction =>
      have taken := (induction writable.operand unsigned breaks behind).unaryOp op
      simpa [Grouping.text, Grouping.lexemes] using taken
  | binary left op right leftInduction rightInduction =>
      have second := rightInduction writable.right
        (fun value member => unsigned value (List.mem_append_right _ member))
        breaks behind
      have first := leftInduction writable.left
        (fun value member => unsigned value (List.mem_append_left _ member))
        (breaks_binaryOp op _) (second.binaryOp op)
      simpa [Grouping.text, Grouping.lexemes] using first
  | enclosed inner induction =>
      have taken := (induction writable unsigned (breaks_rightParen text)
        behind.rightParen).leftParen
      simpa [Grouping.text, Grouping.lexemes] using taken

end

namespace Grouping

/-- The text of a grouping is cut into its lexemes. -/
theorem lex_text {grouping : Grouping} (writable : grouping.tree.Writable)
    (unsigned : ∀ value ∈ grouping.tree.ints, 0 ≤ value) :
    lex grouping.text = .ok (grouping.lexemes ++ [.endOfInput]) := by
  have spelling := grouping.spelling writable unsigned (by simp [Breaks])
    (@Spelling.rest [] (by simp))
  rw [List.append_nil, List.append_nil] at spelling
  exact lex_eq_ok_iff_spelling.mpr ⟨grouping.lexemes, rfl, spelling⟩

theorem ofText?_text {grouping : Grouping} (writable : grouping.tree.Writable)
    (unsigned : ∀ value ∈ grouping.tree.ints, 0 ≤ value) :
    Expression.ofText? grouping.text = some grouping.tree ↔
      grouping.Fits 0 := by
  rw [Expression.ofText?, lex_text writable unsigned]
  apply Expression.read?_eq_some_iff.trans
  constructor
  · intro read
    rcases read with ⟨other, fits, sameTree, sameLexemes⟩
    rw [eq_of_tree_eq_of_lexemes_eq sameTree.symm
      (List.append_cancel_right sameLexemes)]
    exact fits
  · intro fits
    exact ⟨grouping, fits, rfl, rfl⟩

end Grouping

end LineBasic
