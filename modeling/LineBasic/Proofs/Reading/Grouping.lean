import LineBasic.Proofs.Reading.Derivation

/-! Expressions with their parentheses.

Lexemes are read as an expression exactly if they are those of a grouping of it
that respects the priorities of the operators. The lexemes and the expression
together leave no choice of the grouping. -/

namespace LineBasic

/-- An expression in which the operands between parentheses are marked. Nothing
is said about whether the parentheses are needed or suffice. -/
inductive Grouping where
  | int (value : Int64)
  | var (name : String)
  | str (text : String)
  | unary (op : UnaryOp) (operand : Grouping)
  | binary (left : Grouping) (op : BinaryOp) (right : Grouping)
  | enclosed (inner : Grouping)

namespace Grouping

def tree : Grouping → Expression
  | int value => .int value
  | var name => .var name
  | str text => .str text
  | unary op operand => .unary op operand.tree
  | binary left op right => .binary left.tree op right.tree
  | enclosed inner => inner.tree

def lexemes : Grouping → List Lexeme
  | int value => [.int value]
  | var name => [.ident name]
  | str text => [.str text]
  | unary op operand => .symbol op.symbol :: operand.lexemes
  | binary left op right =>
      left.lexemes ++ .symbol op.symbol :: right.lexemes
  | enclosed inner =>
      .symbol .leftParen :: inner.lexemes ++ [.symbol .rightParen]

/-- Whether the grouping ends in a negation of truth, which takes in every
operator that follows. -/
def endsOpen : Grouping → Bool
  | int _ | var _ | str _ | enclosed _ => false
  | unary .neg operand => operand.endsOpen
  | unary .not _ => true
  | binary _ _ right => right.endsOpen

/-- Whether the grouping is a chain of operators of at least the lowest
priority in which every operator has the operands that are read for it. -/
def Fits : Nat → Grouping → Prop
  | _, int _ | _, var _ | _, str _ => True
  | _, unary op operand => operand.Fits op.priority
  | lowest, binary left op right =>
      lowest ≤ op.priority ∧ left.Fits op.priority ∧
        left.endsOpen = false ∧ right.Fits (op.priority + 1)
  | _, enclosed inner => inner.Fits 0

/-- Whether reading stops between the grouping and the lexemes behind it. -/
def Ends (grouping : Grouping) (rest : List Lexeme) : Prop :=
  (grouping.endsOpen = true → Expression.Stops 1 rest) ∧
    match grouping with
    | binary _ op _ => Expression.Stops (op.priority + 1) rest
    | _ => True

end Grouping

/-! ## Lowest priorities -/

theorem Lexeme.continues?_eq_some_iff {lowest : Nat} {lexeme : Lexeme}
    {op : BinaryOp} :
    lexeme.continues? lowest = some op ↔
      lexeme = .symbol op.symbol ∧ lowest ≤ op.priority := by
  cases lexeme with
  | symbol value =>
      simp only [continues?, Option.filter_eq_some_iff,
        Symbol.binaryOp?_eq_some_iff, decide_eq_true_eq, symbol.injEq]
      exact and_congr_left fun _ => eq_comm
  | _ => simp [continues?]

namespace Expression

/-- Reading stops in front of an operator below the lowest priority, and in
front of everything else. -/
theorem stops_iff {lowest : Nat} {rest : List Lexeme} :
    Stops lowest rest ↔
      ∀ op : BinaryOp, .symbol op.symbol ∈ rest.head? → op.priority < lowest := by
  constructor
  · intro stops op member
    have stopped := stops _ member
    apply Nat.lt_of_not_le
    intro above
    rw [Lexeme.continues?_eq_some_iff.mpr ⟨rfl, above⟩] at stopped
    cases stopped
  · intro below next member
    apply Option.eq_none_iff_forall_ne_some.mpr
    intro op continues
    rcases Lexeme.continues?_eq_some_iff.mp continues with ⟨rfl, above⟩
    exact Nat.not_lt.mpr above (below op member)

theorem Stops.mono {low high : Nat} {rest : List Lexeme}
    (stops : Stops low rest) (le : low ≤ high) : Stops high rest :=
  stops_iff.mpr fun op member =>
    Nat.lt_of_lt_of_le (stops_iff.mp stops op member) le

theorem Stops.lt_of_symbol {lowest : Nat} {op : BinaryOp} {rest : List Lexeme}
    (stops : Stops lowest (.symbol op.symbol :: rest)) : op.priority < lowest :=
  stops_iff.mp stops op rfl

theorem stops_symbol {lowest : Nat} {op : BinaryOp}
    (below : op.priority < lowest) (rest : List Lexeme) :
    Stops lowest (.symbol op.symbol :: rest) := by
  apply stops_iff.mpr
  intro other member
  have equal : op = other := by
    have spelled := Symbol.binaryOp?_eq_some_iff.mpr (Lexeme.symbol.inj
      (Option.some.inj member)).symm
    rw [Symbol.binaryOp?_eq_some_iff.mpr rfl] at spelled
    exact Option.some.inj spelled
  exact equal ▸ below

theorem stops_rightParen (lowest : Nat) (rest : List Lexeme) :
    Stops lowest (.symbol .rightParen :: rest) := by
  apply stops_iff.mpr
  intro op member
  cases op <;> cases member

theorem stops_endOfInput (lowest : Nat) : Stops lowest [.endOfInput] := by
  apply stops_iff.mpr
  intro op member
  cases member

end Expression

namespace Grouping

theorem Fits.mono {low high : Nat} {grouping : Grouping}
    (fits : grouping.Fits high) (le : low ≤ high) : grouping.Fits low := by
  cases grouping with
  | binary left op right => exact ⟨Nat.le_trans le fits.1, fits.2⟩
  | _ => exact fits

/-- Only a grouping that is no chain fits where the sign wants its operand. -/
theorem Fits.of_operand {grouping : Grouping} (lowest : Nat)
    (fits : grouping.Fits UnaryOp.neg.priority) : grouping.Fits lowest := by
  cases grouping with
  | binary left op right => exact absurd fits.1 (Nat.not_le_of_lt op.priority_lt_neg)
  | _ => exact fits

theorem ends_rightParen (grouping : Grouping) (rest : List Lexeme) :
    grouping.Ends (.symbol .rightParen :: rest) := by
  refine ⟨fun _ => Expression.stops_rightParen 1 rest, ?_⟩
  cases grouping with
  | binary left op right => exact Expression.stops_rightParen _ rest
  | _ => trivial

theorem ends_endOfInput (grouping : Grouping) :
    grouping.Ends [.endOfInput] := by
  refine ⟨fun _ => Expression.stops_endOfInput 1, ?_⟩
  cases grouping with
  | binary left op right => exact Expression.stops_endOfInput _
  | _ => trivial

/-- In front of a fitting operator every left operand ends. -/
theorem ends_symbol {left : Grouping} {op : BinaryOp}
    (fits : left.Fits op.priority) (closed : left.endsOpen = false)
    (rest : List Lexeme) : left.Ends (.symbol op.symbol :: rest) := by
  refine ⟨fun endsOpen => absurd endsOpen (closed ▸ Bool.false_ne_true), ?_⟩
  cases left with
  | binary _ inner _ => exact Expression.stops_symbol (Nat.lt_succ_of_le fits.1) rest
  | _ => trivial

/-- A right operand ends where the chain ends. -/
theorem Ends.right {left right : Grouping} {op : BinaryOp} {rest : List Lexeme}
    (ends : (binary left op right).Ends rest)
    (fits : right.Fits (op.priority + 1)) : right.Ends rest := by
  refine ⟨ends.1, ?_⟩
  cases right with
  | binary _ inner _ => exact ends.2.mono (Nat.le_succ_of_le fits.1)
  | _ => trivial

/-! ## Fitting groupings are read -/

open Expression in
/-- Reading takes a fitting grouping as a whole: as an operand where it is no
chain, and else as the first part of a chain. -/
theorem reads_of_fits (grouping : Grouping) :
    (∀ {rest : List Lexeme}, grouping.Fits UnaryOp.neg.priority →
      grouping.Ends rest →
      Reads .operand (grouping.lexemes ++ rest) grouping.tree rest) ∧
    ∀ {lowest : Nat} {rest final : List Lexeme} {whole : Expression},
      grouping.Fits lowest → grouping.Ends rest →
      Reads (.climb lowest grouping.tree) rest whole final →
      Reads (.chain lowest) (grouping.lexemes ++ rest) whole final := by
  induction grouping with
  | int value => exact ⟨fun _ _ => .int, fun _ _ behind => .chain .int behind⟩
  | var name => exact ⟨fun _ _ => .var, fun _ _ behind => .chain .var behind⟩
  | str text => exact ⟨fun _ _ => .str, fun _ _ behind => .chain .str behind⟩
  | unary op operand induction =>
      have taken : ∀ {rest}, operand.Fits op.priority →
          (unary op operand).Ends rest →
          Reads .operand ((unary op operand).lexemes ++ rest)
            (unary op operand).tree rest := by
        intro rest fits ends
        cases op with
        | neg => exact .neg (induction.1 fits ⟨ends.1, by
            cases operand with
            | binary left op right =>
                exact absurd fits.1 (Nat.not_le_of_lt op.priority_lt_neg)
            | _ => trivial⟩)
        | not =>
            have stops := ends.1 rfl
            exact .not (induction.2 fits ⟨fun _ => stops, by
              cases operand with
              | binary left op right => exact stops.mono (Nat.le_add_left 1 _)
              | _ => trivial⟩ (.stop stops))
      exact ⟨taken, fun fits ends behind => .chain (taken fits ends) behind⟩
  | binary left op right leftInduction rightInduction =>
      refine ⟨fun fits => absurd fits.1 (Nat.not_le_of_lt op.priority_lt_neg), ?_⟩
      intro lowest rest final whole fits ends behind
      rcases fits with ⟨above, leftFits, closed, rightFits⟩
      rw [lexemes, List.append_assoc, List.cons_append]
      refine leftInduction.2 (leftFits.mono above) (ends_symbol leftFits closed _)
        (.step (Lexeme.continues?_eq_some_iff.mpr ⟨rfl, above⟩) ?_ behind)
      exact rightInduction.2 rightFits (ends.right rightFits) (.stop ends.2)
  | enclosed inner induction =>
      have taken : ∀ {rest}, inner.Fits 0 →
          Reads .operand ((enclosed inner).lexemes ++ rest) inner.tree rest := by
        intro rest fits
        have body := induction.2 fits (inner.ends_rightParen rest)
          (.stop (stops_rightParen 0 rest))
        simpa [lexemes] using Reads.enclosed body
      exact ⟨fun fits _ => taken fits, fun fits _ behind => .chain (taken fits) behind⟩

end Grouping

/-! ## What is read is grouped -/

/-- A phrase in front of the input is spelled by a grouping. For the rest of a
chain the grouping extends the one that has been read. -/
def Expression.Phrase.Grouped (phrase : Phrase) (input : List Lexeme)
    (tree : Expression) (rest : List Lexeme) : Prop :=
  match phrase with
  | operand =>
      ∃ grouping : Grouping, grouping.Fits UnaryOp.neg.priority ∧
        grouping.Ends rest ∧ grouping.tree = tree ∧
        input = grouping.lexemes ++ rest
  | chain lowest =>
      ∃ grouping : Grouping, grouping.Fits lowest ∧ grouping.Ends rest ∧
        Stops lowest rest ∧ grouping.tree = tree ∧
        input = grouping.lexemes ++ rest
  | climb lowest left =>
      ∀ first : Grouping, first.Fits lowest → first.Ends input →
        first.tree = left →
        ∃ grouping : Grouping, grouping.Fits lowest ∧ grouping.Ends rest ∧
          Stops lowest rest ∧ grouping.tree = tree ∧
          first.lexemes ++ input = grouping.lexemes ++ rest

theorem Expression.Reads.grouped {phrase : Phrase} {input rest : List Lexeme}
    {tree : Expression} (reads : Reads phrase input tree rest) :
    phrase.Grouped input tree rest := by
  induction reads with
  | @int value _ =>
      exact ⟨.int value, trivial, ⟨nofun, trivial⟩, rfl, rfl⟩
  | @var name _ =>
      exact ⟨.var name, trivial, ⟨nofun, trivial⟩, rfl, rfl⟩
  | @str text _ =>
      exact ⟨.str text, trivial, ⟨nofun, trivial⟩, rfl, rfl⟩
  | enclosed behind induction =>
      rcases induction with ⟨inner, fits, -, -, rfl, rfl⟩
      exact ⟨.enclosed inner, fits, ⟨nofun, trivial⟩, rfl, by
        simp [Grouping.lexemes]⟩
  | neg behind induction =>
      rcases induction with ⟨inner, fits, ends, rfl, rfl⟩
      exact ⟨.unary .neg inner, fits, ⟨ends.1, trivial⟩, rfl, rfl⟩
  | not behind induction =>
      rcases induction with ⟨inner, fits, -, stops, rfl, rfl⟩
      exact ⟨.unary .not inner, fits, ⟨fun _ => stops, trivial⟩, rfl, rfl⟩
  | chain head behind headInduction induction =>
      rcases headInduction with ⟨first, fits, ends, rfl, rfl⟩
      exact induction first (fits.of_operand _) ends rfl
  | stop stops =>
      intro first fits ends same
      exact ⟨first, fits, ends, stops, same, rfl⟩
  | @step lowest head op input middle rest left right whole continues operand
      behind operandInduction induction =>
      intro first fits ends same
      rcases Lexeme.continues?_eq_some_iff.mp continues with ⟨rfl, above⟩
      rcases operandInduction with ⟨second, secondFits, secondEnds, stops, rfl, rfl⟩
      have leftFits : first.Fits op.priority := by
        cases first with
        | binary _ inner _ => exact ⟨Nat.le_of_lt_succ ends.2.lt_of_symbol, fits.2⟩
        | _ => exact fits
      have closed : first.endsOpen = false := by
        apply Bool.eq_false_iff.mpr
        intro endsOpen
        have below := (ends.1 endsOpen).lt_of_symbol
        exact absurd op.not_priority_lt (Nat.not_lt_of_ge (Nat.le_of_lt below))
      rcases induction (.binary first op second)
        ⟨above, leftFits, closed, secondFits⟩ ⟨secondEnds.1, stops⟩
        (by rw [Grouping.tree, same]) with ⟨grouping, rest⟩
      exact ⟨grouping, by simpa [Grouping.lexemes] using rest⟩

/-- Lexemes are read as an expression exactly if a fitting grouping of the
expression spells them. -/
theorem Expression.read?_eq_some_iff {lexemes : List Lexeme} {whole : Expression} :
    read? lexemes = some whole ↔
      ∃ grouping : Grouping, grouping.Fits 0 ∧ grouping.tree = whole ∧
        lexemes = grouping.lexemes ++ [.endOfInput] := by
  rw [read?_eq_some_iff_reads]
  constructor
  · intro reads
    rcases reads.grouped with ⟨grouping, fits, -, -, same, spelled⟩
    exact ⟨grouping, fits, same, spelled⟩
  · intro grouped
    rcases grouped with ⟨grouping, fits, rfl, rfl⟩
    exact grouping.reads_of_fits.2 fits grouping.ends_endOfInput
      (.stop (stops_endOfInput 0))

end LineBasic
