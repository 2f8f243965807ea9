import LineBasic.Expression.Reader

/-! Readings as derivations.

Three phrases are read from lexemes: an operand, a chain, and the rest of a
chain behind what has been read of it. The reader finds a reading exactly if the
rules for these phrases derive it. -/

namespace LineBasic.Expression

/-- What is read: an operand, a chain, or the rest of a chain. -/
inductive Phrase where
  | operand
  | chain (lowest : Nat)
  | climb (lowest : Nat) (left : Expression)

/-- Whether no operator of at least the lowest priority comes next. -/
def Stops (lowest : Nat) (input : List Lexeme) : Prop :=
  ∀ next ∈ input.head?, next.continues? lowest = none

/-- A phrase in front of the input, what it stands for, and what is left. -/
inductive Reads : Phrase → List Lexeme → Expression → List Lexeme → Prop
  | int {value : Int64} {rest : List Lexeme} :
      Reads .operand (.int value :: rest) (int value) rest
  | var {name : String} {rest : List Lexeme} :
      Reads .operand (.ident name :: rest) (var name) rest
  | str {text : String} {rest : List Lexeme} :
      Reads .operand (.str text :: rest) (str text) rest
  | enclosed {input rest : List Lexeme} {inner : Expression}
      (behind : Reads (.chain 0) input inner (.symbol .rightParen :: rest)) :
      Reads .operand (.symbol .leftParen :: input) inner rest
  | neg {input rest : List Lexeme} {inner : Expression}
      (behind : Reads .operand input inner rest) :
      Reads .operand (.symbol .minus :: input) (unary .neg inner) rest
  | not {input rest : List Lexeme} {inner : Expression}
      (behind : Reads (.chain 1) input inner rest) :
      Reads .operand (.symbol .bang :: input) (unary .not inner) rest
  | chain {lowest : Nat} {input middle rest : List Lexeme}
      {first whole : Expression} (head : Reads .operand input first middle)
      (behind : Reads (.climb lowest first) middle whole rest) :
      Reads (.chain lowest) input whole rest
  | stop {lowest : Nat} {left : Expression} {input : List Lexeme}
      (stops : Stops lowest input) :
      Reads (.climb lowest left) input left input
  | step {lowest : Nat} {head : Lexeme} {op : BinaryOp}
      {input middle rest : List Lexeme} {left right whole : Expression}
      (continues : head.continues? lowest = some op)
      (operand : Reads (.chain (op.priority + 1)) input right middle)
      (behind : Reads (.climb lowest (binary left op right)) middle whole rest) :
      Reads (.climb lowest left) (head :: input) whole rest

/-! ## The reader without bounds -/

/-- What the reader makes of a phrase. -/
def Phrase.read? (phrase : Phrase) (input : List Lexeme) :
    Option (Expression × List Lexeme) :=
  match phrase with
  | operand => (Expression.operand input).map fun found => (found.1, found.2.1)
  | chain lowest =>
      (Expression.chain lowest input).map fun found => (found.1, found.2.1)
  | climb lowest left =>
      (Expression.climb lowest left input).map fun found => (found.1, found.2.1)

namespace Phrase

theorem read?_chain (lowest : Nat) (input : List Lexeme) :
    (chain lowest).read? input =
      (operand.read? input).bind fun found =>
        (climb lowest found.1).read? found.2 := by
  simp only [read?]
  rw [Expression.chain]
  rcases Expression.operand input with _ | ⟨first, rest, shorter⟩
  · rfl
  · simp only [Option.map_some, Option.bind_some]
    rcases Expression.climb lowest first rest with _ | ⟨whole, rest, noLonger⟩ <;>
      rfl

theorem read?_climb_nil (lowest : Nat) (left : Expression) :
    (climb lowest left).read? [] = some (left, []) := by
  simp only [read?]
  rw [Expression.climb]
  rfl

theorem read?_climb_stop {lowest : Nat} {left : Expression} {head : Lexeme}
    {tail : List Lexeme} (stops : head.continues? lowest = none) :
    (climb lowest left).read? (head :: tail) = some (left, head :: tail) := by
  simp only [read?]
  rw [Expression.climb]
  simp only [stops]
  rfl

theorem read?_climb_step {lowest : Nat} {left : Expression} {head : Lexeme}
    {op : BinaryOp} {tail : List Lexeme}
    (continues : head.continues? lowest = some op) :
    (climb lowest left).read? (head :: tail) =
      ((chain (op.priority + 1)).read? tail).bind fun found =>
        (climb lowest (binary left op found.1)).read? found.2 := by
  simp only [read?]
  rw [Expression.climb]
  simp only [continues]
  rcases Expression.chain (op.priority + 1) tail with _ | ⟨right, rest, shorter⟩
  · rfl
  · simp only [Option.map_some, Option.bind_some]
    rcases Expression.climb lowest (binary left op right) rest with
      _ | ⟨whole, rest, noLonger⟩ <;> rfl

theorem read?_enclosed (tail : List Lexeme) :
    operand.read? (.symbol .leftParen :: tail) =
      ((chain 0).read? tail).bind fun found =>
        match found with
        | (inner, .symbol .rightParen :: rest) => some (inner, rest)
        | _ => none := by
  simp only [read?]
  rw [Expression.operand]
  rcases Expression.chain 0 tail with _ | ⟨inner, rest, shorter⟩
  · rfl
  · simp only [Option.map_some, Option.bind_some]
    cases rest with
    | nil => rfl
    | cons next rest =>
        rcases next with _ | _ | symbol | _ | _ <;> try rfl
        cases symbol <;> rfl

theorem read?_neg (tail : List Lexeme) :
    operand.read? (.symbol .minus :: tail) =
      (operand.read? tail).map fun found => (unary .neg found.1, found.2) := by
  simp only [read?]
  rw [Expression.operand]
  rcases Expression.operand tail with _ | ⟨inner, rest, shorter⟩ <;> rfl

theorem read?_not (tail : List Lexeme) :
    operand.read? (.symbol .bang :: tail) =
      ((chain 1).read? tail).map fun found => (unary .not found.1, found.2) := by
  simp only [read?]
  rw [Expression.operand]
  rcases Expression.chain 1 tail with _ | ⟨inner, rest, shorter⟩ <;> rfl

/-- Operands and chains are not empty. -/
theorem length_lt_of_read?_operand {input rest : List Lexeme}
    {tree : Expression} (found : operand.read? input = some (tree, rest)) :
    rest.length < input.length := by
  rcases Option.map_eq_some_iff.mp found with ⟨⟨_, _, shorter⟩, -, equal⟩
  cases equal
  exact shorter

theorem length_lt_of_read?_chain {lowest : Nat} {input rest : List Lexeme}
    {tree : Expression} (found : (chain lowest).read? input = some (tree, rest)) :
    rest.length < input.length := by
  rcases Option.map_eq_some_iff.mp found with ⟨⟨_, _, shorter⟩, -, equal⟩
  cases equal
  exact shorter

def rank : Phrase → Nat
  | operand | climb _ _ => 0
  | chain _ => 1

end Phrase

/-! ## Derivations of what the reader finds -/

theorem Reads.of_read? {phrase : Phrase} {input rest : List Lexeme}
    {tree : Expression} (found : phrase.read? input = some (tree, rest)) :
    Reads phrase input tree rest := by
  match phrase, input with
  | .chain lowest, input =>
      rw [Phrase.read?_chain, Option.bind_eq_some_iff] at found
      rcases found with ⟨⟨first, middle⟩, head, behind⟩
      have shorter := Phrase.length_lt_of_read?_operand head
      exact .chain (.of_read? head) (.of_read? behind)
  | .climb lowest left, [] =>
      rw [Phrase.read?_climb_nil] at found
      cases found
      exact .stop (by simp [Stops])
  | .climb lowest left, head :: tail =>
      cases continues : head.continues? lowest with
      | none =>
          rw [Phrase.read?_climb_stop continues] at found
          cases found
          exact .stop (by simpa [Stops] using continues)
      | some op =>
          rw [Phrase.read?_climb_step continues, Option.bind_eq_some_iff] at found
          rcases found with ⟨⟨right, middle⟩, operand, behind⟩
          have shorter := Phrase.length_lt_of_read?_chain operand
          exact .step continues (.of_read? operand) (.of_read? behind)
  | .operand, .int value :: tail =>
      simp only [Phrase.read?] at found
      rw [operand] at found
      cases found
      exact .int
  | .operand, .ident name :: tail =>
      simp only [Phrase.read?] at found
      rw [operand] at found
      cases found
      exact .var
  | .operand, .str text :: tail =>
      simp only [Phrase.read?] at found
      rw [operand] at found
      cases found
      exact .str
  | .operand, [] | .operand, .endOfInput :: tail =>
      simp only [Phrase.read?] at found
      rw [operand] at found
      · cases found
      all_goals simp
  | .operand, .symbol symbol :: tail =>
      cases symbol with
      | leftParen =>
          rw [Phrase.read?_enclosed, Option.bind_eq_some_iff] at found
          rcases found with ⟨⟨inner, middle⟩, body, closed⟩
          split at closed
          · rename_i equal
            cases equal
            cases closed
            exact .enclosed (.of_read? body)
          · cases closed
      | minus =>
          rw [Phrase.read?_neg, Option.map_eq_some_iff] at found
          rcases found with ⟨⟨inner, middle⟩, behind, equal⟩
          cases equal
          exact .neg (.of_read? behind)
      | bang =>
          rw [Phrase.read?_not, Option.map_eq_some_iff] at found
          rcases found with ⟨⟨inner, middle⟩, behind, equal⟩
          cases equal
          exact .not (.of_read? behind)
      | _ =>
          simp only [Phrase.read?] at found
          rw [operand] at found
          · cases found
          all_goals simp
termination_by 2 * input.length + phrase.rank
decreasing_by all_goals simp only [Phrase.rank, List.length_cons]; omega

theorem Reads.read? {phrase : Phrase} {input rest : List Lexeme}
    {tree : Expression} (reads : Reads phrase input tree rest) :
    phrase.read? input = some (tree, rest) := by
  induction reads with
  | int | var | str =>
      simp only [Phrase.read?]
      rw [operand]
      rfl
  | enclosed behind induction => rw [Phrase.read?_enclosed, induction]; rfl
  | neg behind induction => rw [Phrase.read?_neg, induction]; rfl
  | not behind induction => rw [Phrase.read?_not, induction]; rfl
  | chain head behind headInduction induction =>
      rw [Phrase.read?_chain, headInduction]
      exact induction
  | @stop lowest left input stops =>
      cases input with
      | nil => exact Phrase.read?_climb_nil lowest left
      | cons head tail => exact Phrase.read?_climb_stop (stops head rfl)
  | step continues operand behind operandInduction induction =>
      rw [Phrase.read?_climb_step continues, operandInduction]
      exact induction

/-- The lexemes of a whole text are read as a chain in front of the end. -/
theorem read?_eq_some_iff_reads {lexemes : List Lexeme} {whole : Expression} :
    read? lexemes = some whole ↔
      Reads (.chain 0) lexemes whole [.endOfInput] := by
  constructor
  · intro found
    rw [Expression.read?.eq_def] at found
    split at found
    · rename_i tree shorter reading
      cases found
      exact .of_read? (by simp [Phrase.read?, reading])
    · cases found
  · intro reads
    rcases Option.map_eq_some_iff.mp reads.read? with
      ⟨⟨tree, rest, shorter⟩, reading, equal⟩
    cases equal
    simp [read?, reading]

end LineBasic.Expression
