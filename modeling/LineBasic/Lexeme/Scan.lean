import LineBasic.Lexeme.Basic
import LineBasic.Text

/-! Reading the lexeme at the head of a text. Each lexeme takes the longest
run of characters that can belong to it. -/

namespace LineBasic

/-- The result of reading one lexeme: what was read, and the text cut in two at
the place where reading stopped. -/
structure Scan where
  outcome : Except Defect Lexeme
  consumed : List Char
  rest : List Char

namespace Scan

/-- Integers are written without a sign, and zeros may lead. -/
def number (text : List Char) : Scan :=
  let digits := text.takeWhile Char.isDigit
  let value := Nat.ofDigitChars 10 digits 0
  { outcome :=
      if value ≤ Lexeme.largestInt then .ok (.int (Int64.ofNat value))
      else .error (.integerOverflow (String.ofList digits))
    consumed := digits
    rest := text.dropWhile Char.isDigit }

def name (text : List Char) : Scan :=
  let characters := text.takeWhile isNameTail
  { outcome := .ok (.ident (String.ofList characters))
    consumed := characters
    rest := text.dropWhile isNameTail }

/-- Reads a string from behind its opening quote. Every character up to the
closing quote belongs to it. -/
def string (body : List Char) : Scan :=
  let content := body.takeWhile (· ≠ '"')
  match body.dropWhile (· ≠ '"') with
  | [] =>
      { outcome := .error .unterminatedString
        consumed := '"' :: content
        rest := [] }
  | quote :: rest =>
      { outcome := .ok (.str (String.ofList content))
        consumed := '"' :: content ++ [quote]
        rest := rest }

/-- Reads the lexeme at the head of a text that does not begin with a blank. A
character that begins no lexeme is left in the rest. -/
def ofText : List Char → Scan
  | [] => { outcome := .ok .endOfInput, consumed := [], rest := [] }
  | '"' :: body => string body
  | first :: tail =>
      if first.isDigit then number (first :: tail)
      else if first.isAlpha then name (first :: tail)
      else
        match Symbol.splitHead? (first :: tail) with
        | some (symbol, rest) =>
            { outcome := .ok (.symbol symbol)
              consumed := symbol.spelling.toList
              rest := rest }
        | none =>
            { outcome := .error (.unexpectedCharacter first)
              consumed := []
              rest := first :: tail }

/-! ## Which rule reads -/

theorem ofText_cons {first : Char} (tail : List Char) (unquoted : first ≠ '"') :
    ofText (first :: tail) =
      if first.isDigit then number (first :: tail)
      else if first.isAlpha then name (first :: tail)
      else
        match Symbol.splitHead? (first :: tail) with
        | some (symbol, rest) =>
            ⟨.ok (.symbol symbol), symbol.spelling.toList, rest⟩
        | none => ⟨.error (.unexpectedCharacter first), [], first :: tail⟩ := by
  rw [ofText]
  exact fun same => absurd same unquoted

theorem ofText_of_splitHead? {text rest : List Char} {symbol : Symbol}
    (found : Symbol.splitHead? text = some (symbol, rest)) :
    ofText text = ⟨.ok (.symbol symbol), symbol.spelling.toList, rest⟩ := by
  have whole := Symbol.splitHead?_append found
  cases symbol <;> subst whole <;> simp_all [ofText, Symbol.spelling]

/-! ## Nothing is lost -/

theorem number_append (text : List Char) :
    (number text).consumed ++ (number text).rest = text :=
  List.takeWhile_append_dropWhile

theorem name_append (text : List Char) :
    (name text).consumed ++ (name text).rest = text :=
  List.takeWhile_append_dropWhile

theorem string_append (body : List Char) :
    (string body).consumed ++ (string body).rest = '"' :: body := by
  have whole := List.takeWhile_append_dropWhile
    (p := fun character : Char => decide (character ≠ '"')) (l := body)
  unfold string
  split <;> rename_i equal <;> rw [equal] at whole <;> simpa using whole

theorem consumed_append_rest (text : List Char) :
    (ofText text).consumed ++ (ofText text).rest = text := by
  unfold ofText
  split
  · rfl
  · exact string_append _
  · split
    · exact number_append _
    · split
      · exact name_append _
      · split
        · rename_i found
          exact Symbol.splitHead?_append found
        · rfl

/-! ## Progress -/

/-- What is told without an error has been read without a defect. -/
theorem outcome_eq_ok {outcome : Except Defect Lexeme} {place : Defect → LexError}
    {lexeme : Lexeme} (told : outcome.mapError place = .ok lexeme) :
    outcome = .ok lexeme := by
  cases outcome with
  | error defect => cases told
  | ok value =>
      cases told
      rfl

theorem consumed_ne_nil {text : List Char} {lexeme : Lexeme}
    (read : (ofText text).outcome = .ok lexeme)
    (more : lexeme ≠ .endOfInput) : (ofText text).consumed ≠ [] := by
  unfold ofText at read ⊢
  split at read
  · simp_all
  · unfold string
    split <;> simp
  · split at read
    · rename_i digit
      simp [number, digit]
    · split at read
      · rename_i letter
        simp_all [name, isNameTail_of_isAlpha letter]
      · split at read
        · rename_i symbol _ _
          simpa [*] using symbol.spelling_ne_nil
        · cases read

theorem rest_length_lt {text : List Char} {lexeme : Lexeme}
    (read : (ofText text).outcome = .ok lexeme)
    (more : lexeme ≠ .endOfInput) : (ofText text).rest.length < text.length := by
  have whole := congrArg List.length (consumed_append_rest text)
  have positive := List.length_pos_iff.mpr (consumed_ne_nil read more)
  rw [List.length_append] at whole
  omega

end Scan

end LineBasic
