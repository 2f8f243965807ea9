import LineBasic.Lexeme.Basic
import LineBasic.Text
import LineBasic.Text.Slice

/-! Lexemes read from a text by byte offsets.

A scanner keeps the whole text and a position in it. All that it sees is cut out of
the text anew, and a cut fails if an offset is out of range or inside a character.
So every operation may fail. That none does on the way from the start of a text is
left to the proofs. -/

namespace LineBasic

/-- A text, and the byte offset up to which it has been read. -/
structure Scanner where
  source : String
  position : Nat
deriving DecidableEq, Repr

namespace Scanner

/-- The scanner at the start of a text. -/
def ofText (source : String) : Scanner := ⟨source, 0⟩

/-- The number of bytes in the text. -/
def length (scanner : Scanner) : Nat := scanner.source.utf8ByteSize

/-- Whether the whole text is empty. -/
def isEmpty (scanner : Scanner) : Bool := scanner.source.isEmpty

/-- Whether the position has reached the end of the text. -/
def atEnd (scanner : Scanner) : Bool := scanner.length ≤ scanner.position

/-- The unread part of the text. -/
def remaining? (scanner : Scanner) : Option String :=
  (sliceFrom? scanner.source scanner.position).map String.Slice.copy

/-- The first unread character, or that there is none. -/
def peek? (scanner : Scanner) : Option (Option Char) :=
  (sliceFrom? scanner.source scanner.position).map String.Slice.front?

/-- Behind one more character. -/
def pass (scanner : Scanner) (character : Char) : Scanner :=
  { scanner with position := scanner.position + character.utf8Size }

/-- Takes the first unread character if there is one. -/
def advance? (scanner : Scanner) : Option (Option Char × Scanner) := do
  match ← scanner.peek? with
  | none => return (none, scanner)
  | some first => return (some first, scanner.pass first)

theorem remaining?_eq_some_iff {scanner : Scanner} {unread : String} :
    scanner.remaining? = some unread ↔
      ∃ read : String, read ++ unread = scanner.source ∧
        scanner.position = read.utf8ByteSize :=
  map_copy_sliceFrom?_eq_some_iff

theorem peek?_eq_map_remaining? (scanner : Scanner) :
    scanner.peek? = scanner.remaining?.map fun unread => unread.toList.head? := by
  rw [peek?, remaining?, Option.map_map]
  congr 1
  funext slice
  exact String.Slice.front?_eq

/-- A look into a character or past the end fails, and the end itself is no failure. -/
example :
    peek? ⟨"é<", 1⟩ = none ∧ peek? ⟨"é<", 2⟩ = some (some '<') ∧
      peek? ⟨"é<", 3⟩ = some none ∧ peek? ⟨"é<", 4⟩ = none := by
  decide

theorem position_lt_length {scanner : Scanner} {first : Char}
    (found : scanner.peek? = some (some first)) :
    scanner.position < scanner.length := by
  rw [peek?_eq_map_remaining?, Option.map_eq_some_iff] at found
  rcases found with ⟨unread, remains, head⟩
  rcases remaining?_eq_some_iff.mp remains with ⟨read, whole, counted⟩
  have nonempty : unread.utf8ByteSize ≠ 0 := by
    intro nothing
    rw [String.utf8ByteSize_eq_zero_iff.mp nothing] at head
    cases head
  rw [length, ← whole, counted, String.utf8ByteSize_append]
  omega

/-- Goes over the characters that belong, up to the first one that does not. -/
def skipWhile? (belongs : Char → Bool) (scanner : Scanner) : Option Scanner :=
  match _ : scanner.peek? with
  | none => none
  | some none => some scanner
  | some (some first) =>
      if belongs first then skipWhile? belongs (scanner.pass first) else some scanner
termination_by scanner.length - scanner.position
decreasing_by
  have inside := position_lt_length ‹_›
  have positive := first.utf8Size_pos
  simp only [pass, length] at inside ⊢
  omega

theorem skipWhile?_eq_bind (belongs : Char → Bool) (scanner : Scanner) :
    scanner.skipWhile? belongs = scanner.peek?.bind fun
      | none => some scanner
      | some first =>
          if belongs first then (scanner.pass first).skipWhile? belongs
          else some scanner := by
  rw [skipWhile?]
  split <;> rename_i found <;> rw [found] <;> rfl

/-- Takes the longest run of characters that belong. -/
def takeWhile? (belongs : Char → Bool) (scanner : Scanner) :
    Option (String × Scanner) := do
  let stopped ← scanner.skipWhile? belongs
  let run ← slice? scanner.source scanner.position stopped.position
  return (run, stopped)

/-- A lexeme or a defect, and the scanner behind it. -/
abbrev Answer := Except LexError Lexeme × Scanner

/-- Reads a string from its opening quote. -/
def string? (scanner : Scanner) : Option Answer := do
  let (_, inside) ← scanner.advance?
  let (content, behind) ← inside.takeWhile? (· ≠ '"')
  match ← behind.advance? with
  | (none, stopped) => return (.error ⟨.unterminatedString, scanner.position⟩, stopped)
  | (some _, stopped) => return (.ok (.str content), stopped)

def number? (scanner : Scanner) : Option Answer := do
  let (digits, stopped) ← scanner.takeWhile? Char.isDigit
  let value := Nat.ofDigitChars 10 digits.toList 0
  if value ≤ Lexeme.largestInt then
    return (.ok (.int (Int64.ofNat value)), stopped)
  else
    return (.error ⟨.integerOverflow digits, scanner.position⟩, stopped)

def name? (scanner : Scanner) : Option Answer := do
  let (characters, stopped) ← scanner.takeWhile? isNameTail
  return (.ok (.ident characters), stopped)

/-- Reads a comparison that begins with a less or a greater sign. -/
def comparison? (first : Char) (scanner : Scanner) : Option Answer := do
  let (_, behind) ← scanner.advance?
  match Symbol.double? first (← behind.peek?) with
  | some symbol =>
      let (_, stopped) ← behind.advance?
      return (.ok (.symbol symbol), stopped)
  | none =>
      return (.ok (.symbol (if first = '<' then .less else .greater)), behind)

/-- Reads the lexeme that begins with the first unread character. A character that
begins no lexeme stays unread. -/
def lexeme? (first : Char) (scanner : Scanner) : Option Answer :=
  if first = '"' then scanner.string?
  else if first.isDigit then scanner.number?
  else if first.isAlpha then scanner.name?
  else if first = '<' ∨ first = '>' then scanner.comparison? first
  else
    match Symbol.single? first with
    | some symbol => do
        let (_, behind) ← scanner.advance?
        return (.ok (.symbol symbol), behind)
    | none => some (.error ⟨.unexpectedCharacter first, scanner.position⟩, scanner)

/-- Skips blanks and takes one lexeme. At the end of the text this is the end
marker, every time. -/
def next? (scanner : Scanner) : Option Answer := do
  let start ← scanner.skipWhile? isBlank
  match ← start.peek? with
  | none => return (.ok .endOfInput, start)
  | some first => start.lexeme? first

end Scanner

end LineBasic
