import LineBasic.Expression.Printer
import LineBasic.Proofs.Printing.GroupingText

/-! The grouping that is printed.

The printer encloses an operand exactly where it would not fit otherwise, so
that the printed grouping fits as a whole. -/

namespace LineBasic

/-- The lowest priority of an operand that stands in the slot as it is. -/
def Slot.level : Slot → Nat
  | operand op => op.priority
  | left op => op.priority
  | right op => op.priority + 1

theorem Slot.encloses_binary (slot : Slot) (left : Expression) (op : BinaryOp)
    (right : Expression) :
    slot.encloses (.binary left op right) = decide (op.priority < slot.level) := by
  cases slot with
  | operand outer | left outer => rfl
  | right outer => exact decide_eq_decide.mpr Nat.lt_succ_iff.symm

namespace Grouping

def enclosedIf (needed : Bool) (inner : Grouping) : Grouping :=
  if needed then enclosed inner else inner

theorem enclosedIf_tree (needed : Bool) (inner : Grouping) :
    (enclosedIf needed inner).tree = inner.tree := by
  cases needed <;> rfl

theorem enclosedIf_text (needed : Bool) (inner : Grouping) :
    (enclosedIf needed inner).text = parenthesized needed inner.text := by
  cases needed <;> rfl

end Grouping

namespace Expression

open Grouping (enclosedIf)

/-- The expression with the parentheses that are printed. A negative literal is
printed as the sign and its positive counterpart. -/
def grouping : Expression → Grouping
  | int value => if value < 0 then .unary .neg (.int (-value)) else .int value
  | var name => .var name
  | str text => .str text
  | unary op operand =>
      .unary op (enclosedIf ((Slot.operand op).encloses operand) operand.grouping)
  | binary left op right =>
      .binary (enclosedIf ((Slot.left op).encloses left) left.grouping) op
        (enclosedIf ((Slot.right op).encloses right) right.grouping)

theorem grouping_tree (expression : Expression) :
    expression.grouping.tree = expression.signless := by
  induction expression with
  | int value =>
      rw [grouping, signless]
      split <;> rfl
  | var name | str text => rfl
  | unary op operand induction =>
      rw [grouping, Grouping.tree, Grouping.enclosedIf_tree, induction, signless]
  | binary left op right leftInduction rightInduction =>
      rw [grouping, Grouping.tree, Grouping.enclosedIf_tree,
        Grouping.enclosedIf_tree, leftInduction, rightInduction, signless]

theorem grouping_text {expression : Expression}
    (readable : ∀ value ∈ expression.ints, Int64.minValue < value) :
    expression.grouping.text = expression.print := by
  induction expression with
  | int value =>
      rw [grouping, print]
      split
      · rename_i negative
        exact (toString_of_neg (readable value (List.mem_singleton.mpr rfl))
          negative).symm
      · rfl
  | var name | str text => rfl
  | unary op operand induction =>
      rw [grouping, Grouping.text, Grouping.enclosedIf_text, induction readable,
        print]
  | binary left op right leftInduction rightInduction =>
      have leftReadable : ∀ value ∈ left.ints, Int64.minValue < value :=
        fun value member => readable value (List.mem_append_left _ member)
      have rightReadable : ∀ value ∈ right.ints, Int64.minValue < value :=
        fun value member => readable value (List.mem_append_right _ member)
      rw [grouping, Grouping.text, Grouping.enclosedIf_text,
        Grouping.enclosedIf_text, leftInduction leftReadable,
        rightInduction rightReadable, print]

/-! ## Printed groupings fit -/

/-- What is printed in a slot never takes in an operator behind it. -/
theorem endsOpen_printed (slot : Slot) (expression : Expression) :
    (enclosedIf (slot.encloses expression) expression.grouping).endsOpen =
      false := by
  induction expression generalizing slot with
  | int value =>
      rw [Slot.encloses, grouping]
      split <;> rfl
  | var name | str text | unary op operand => cases slot <;> rfl
  | binary left op right leftInduction rightInduction =>
      rw [enclosedIf]
      split
      · rfl
      · exact rightInduction (.right op)

theorem fits_printed (slot : Slot) {expression : Expression}
    (fits : expression.grouping.Fits 0) :
    (enclosedIf (slot.encloses expression) expression.grouping).Fits
      slot.level := by
  cases expression with
  | int value =>
      rw [Slot.encloses, grouping]
      split <;> trivial
  | var name | str text => cases slot <;> trivial
  | unary op operand => cases slot <;> exact fits
  | binary left op right =>
      rw [Slot.encloses_binary, enclosedIf]
      split
      · exact fits
      · rename_i notBelow
        exact ⟨Nat.le_of_not_lt (by simpa using notBelow), fits.2⟩

theorem grouping_fits (expression : Expression) :
    expression.grouping.Fits 0 := by
  induction expression with
  | int value =>
      rw [grouping]
      split <;> trivial
  | var name | str text => trivial
  | unary op operand induction => exact fits_printed (.operand op) induction
  | binary left op right leftInduction rightInduction =>
      exact ⟨Nat.zero_le _, fits_printed (.left op) leftInduction,
        endsOpen_printed (.left op) left, fits_printed (.right op) rightInduction⟩

/-! ## Readable expressions -/

/-- Expressions that can be written, without the integer that has no positive
counterpart. -/
structure Readable (expression : Expression) : Prop
    extends expression.Writable where
  ints : ∀ value ∈ expression.ints, Int64.minValue < value

instance (expression : Expression) : Decidable expression.Readable :=
  decidable_of_iff
    (expression.Writable ∧
      expression.ints.all (fun value => decide (Int64.minValue < value)) = true)
    ⟨fun both => ⟨both.1, by simpa using both.2⟩,
      fun readable => ⟨readable.toWritable, by simpa using readable.ints⟩⟩

theorem signless_names (expression : Expression) :
    expression.signless.names = expression.names := by
  induction expression with
  | int value =>
      rw [signless]
      split <;> rfl
  | var name | str text => rfl
  | unary op operand induction => exact induction
  | binary left op right leftInduction rightInduction =>
      rw [signless, names, leftInduction, rightInduction, names]

theorem signless_texts (expression : Expression) :
    expression.signless.texts = expression.texts := by
  induction expression with
  | int value =>
      rw [signless]
      split <;> rfl
  | var name | str text => rfl
  | unary op operand induction => exact induction
  | binary left op right leftInduction rightInduction =>
      rw [signless, texts, leftInduction, rightInduction, texts]

theorem Writable.signless {expression : Expression}
    (writable : expression.Writable) : expression.signless.Writable :=
  ⟨expression.signless_names.symm ▸ writable.names,
    expression.signless_texts.symm ▸ writable.texts⟩

theorem signless_ints {expression : Expression}
    (readable : ∀ value ∈ expression.ints, Int64.minValue < value) :
    ∀ value ∈ expression.signless.ints, 0 ≤ value := by
  induction expression with
  | int value =>
      have bound := readable value (List.mem_singleton.mpr rfl)
      rw [signless]
      split
      · rename_i negative
        intro found member
        rw [List.mem_singleton.mp member]
        exact neg_nonneg_of_neg bound negative
      · rename_i unsigned
        intro found member
        rw [List.mem_singleton.mp member]
        exact Int64.not_lt.mp unsigned
  | var name | str text => simp [signless, ints]
  | unary op operand induction => exact induction readable
  | binary left op right leftInduction rightInduction =>
      intro value member
      rcases List.mem_append.mp member with inLeft | inRight
      · exact leftInduction (fun value member =>
          readable value (List.mem_append_left _ member)) value inLeft
      · exact rightInduction (fun value member =>
          readable value (List.mem_append_right _ member)) value inRight

theorem Readable.writable_grouping {expression : Expression}
    (readable : expression.Readable) : expression.grouping.tree.Writable := by
  rw [grouping_tree]
  exact readable.toWritable.signless

theorem Readable.unsigned_grouping {expression : Expression}
    (readable : expression.Readable) :
    ∀ value ∈ expression.grouping.tree.ints, 0 ≤ value := by
  rw [grouping_tree]
  exact signless_ints readable.ints

/-- A readable expression is printed as the lexemes of its grouping. -/
theorem Readable.lex_print {expression : Expression}
    (readable : expression.Readable) :
    lex expression.print =
      .ok (expression.grouping.lexemes ++ [.endOfInput]) := by
  rw [← grouping_text readable.ints]
  exact Grouping.lex_text readable.writable_grouping readable.unsigned_grouping

theorem read?_grouping (expression : Expression) :
    read? (expression.grouping.lexemes ++ [.endOfInput]) =
      some expression.signless :=
  read?_eq_some_iff.mpr
    ⟨expression.grouping, expression.grouping_fits, expression.grouping_tree, rfl⟩

theorem Readable.ofText?_print_eq {expression : Expression}
    (readable : expression.Readable) :
    ofText? expression.print = some expression.signless := by
  rw [ofText?, readable.lex_print]
  exact expression.read?_grouping

end Expression

end LineBasic
