import LineBasic.Lexeme.Grammar
import LineBasic.Lexeme.Scan
import Mathlib.Data.List.TakeWhile

/-! One reading step against the rules of spelling.

A spelling that is not read on into what follows is taken as a whole, and
nothing else is ever taken: the step reads a lexeme exactly where a spelling of
it stands apart from what follows. -/

namespace LineBasic

/-! ## Longest runs -/

theorem takeWhile_run {belongs : Char → Bool} {run rest : List Char}
    (inside : ∀ character ∈ run, belongs character = true)
    (outside : ∀ next ∈ rest.head?, belongs next = false) :
    (run ++ rest).takeWhile belongs = run := by
  rw [List.takeWhile_append_of_pos inside]
  cases rest with
  | nil => simp
  | cons next tail => simp [outside next rfl]

theorem dropWhile_run {belongs : Char → Bool} {run rest : List Char}
    (inside : ∀ character ∈ run, belongs character = true)
    (outside : ∀ next ∈ rest.head?, belongs next = false) :
    (run ++ rest).dropWhile belongs = rest := by
  rw [List.dropWhile_append_of_pos inside]
  cases rest with
  | nil => rfl
  | cons next tail => simp [outside next rfl]

theorem outside_dropWhile (belongs : Char → Bool) (text : List Char) :
    ∀ next ∈ (text.dropWhile belongs).head?, belongs next = false := by
  intro next member
  have stopped := List.head?_dropWhile_not belongs text
  rw [Option.mem_def.mp member] at stopped
  simpa using stopped

/-! ## Character classes -/

theorem isBlank_eq_false_of_isNameTail {character : Char}
    (tail : isNameTail character = true) : isBlank character = false := by
  by_contra blank
  rw [Bool.not_eq_false, isBlank, Bool.or_eq_true, decide_eq_true_eq,
    decide_eq_true_eq] at blank
  rcases blank with rfl | rfl <;> exact absurd tail (by decide)

theorem isNameTail_of_isDigit {character : Char}
    (digit : character.isDigit = true) : isNameTail character = true := by
  simp [isNameTail, Char.isAlphanum, digit]

theorem isDigit_eq_false_of_not_isNameTail {character : Char}
    (noTail : isNameTail character = false) : character.isDigit = false := by
  apply Bool.eq_false_iff.mpr
  intro digit
  rw [isNameTail_of_isDigit digit] at noTail
  cases noTail

theorem isDigit_eq_false_of_isAlpha {character : Char}
    (letter : character.isAlpha = true) : character.isDigit = false := by
  have above : 'A'.toNat ≤ character.toNat := by
    rcases Bool.or_eq_true_iff.mp letter with upper | lower
    · exact UInt32.le_iff_toNat_le.mp (of_decide_eq_true upper).1
    · have fromSmall : 'a'.toNat ≤ character.toNat :=
        UInt32.le_iff_toNat_le.mp
          (of_decide_eq_true (Bool.and_eq_true_iff.mp lower).1)
      exact Nat.le_trans (by decide) fromSmall
  apply Bool.eq_false_iff.mpr
  intro digit
  have below := (Char.isDigit_iff_toNat.mp digit).2
  exact absurd (Nat.le_trans above below) (by decide)

theorem ne_quote_of_isNameTail {character : Char}
    (tail : isNameTail character = true) : character ≠ '"' := by
  intro quote
  rw [quote] at tail
  exact absurd tail (by decide)

/-- The letter with which a name begins, and what follows it. -/
theorem exists_cons_of_isName {text : String} (shaped : isName text = true) :
    ∃ first tail, text.toList = first :: tail ∧ first.isAlpha = true ∧
      ∀ character ∈ first :: tail, isNameTail character = true := by
  rw [isName] at shaped
  split at shaped
  · cases shaped
  · rename_i first tail equal
    rw [Bool.and_eq_true, List.all_eq_true] at shaped
    refine ⟨first, tail, equal, shaped.1, ?_⟩
    intro character member
    rcases List.mem_cons.mp member with rfl | later
    · exact isNameTail_of_isAlpha shaped.1
    · exact shaped.2 character later

theorem Lexeme.readsOn_symbol_of_ne (symbol : Symbol) {next : Char}
    (notEqual : next ≠ '=') (notGreater : next ≠ '>') :
    (Lexeme.symbol symbol).readsOn next = false := by
  cases symbol <;> simp [readsOn, notEqual, notGreater]

/-- Lexemes are read on over letters, digits, underscores and the second characters
of comparisons only. -/
theorem Lexeme.readsOn_of_not_isNameTail (lexeme : Lexeme) {next : Char}
    (noTail : isNameTail next = false) (notEqual : next ≠ '=')
    (notGreater : next ≠ '>') : lexeme.readsOn next = false := by
  cases lexeme with
  | int value => exact isDigit_eq_false_of_not_isNameTail noTail
  | ident name => exact noTail
  | symbol symbol => exact readsOn_symbol_of_ne symbol notEqual notGreater
  | str text | endOfInput => rfl

/-- No lexeme is read on over a blank. -/
theorem Lexeme.readsOn_of_isBlank (lexeme : Lexeme) {next : Char}
    (blank : isBlank next = true) : lexeme.readsOn next = false := by
  rw [isBlank, Bool.or_eq_true, decide_eq_true_eq, decide_eq_true_eq] at blank
  rcases blank with rfl | rfl <;>
    exact lexeme.readsOn_of_not_isNameTail (by decide) (by decide) (by decide)

/-! ## Symbols -/

namespace Symbol

/-- The characters with which symbols begin. -/
def heads : List Char :=
  ['+', '-', '*', '/', '%', '&', '|', '!', '=', '(', ')', '<', '>']

theorem splitHead?_spelling (symbol : Symbol) {text : List Char}
    (apart : ∀ next ∈ text.head?, (Lexeme.symbol symbol).readsOn next = false) :
    splitHead? (symbol.spelling.toList ++ text) = some (symbol, text) := by
  cases text with
  | nil => cases symbol <;> rfl
  | cons next tail =>
      have stops := apart next rfl
      cases symbol with
      | less =>
          have notEqual : next ≠ '=' ∧ next ≠ '>' := by
            simpa [Lexeme.readsOn] using stops
          simp [spelling, splitHead?, notEqual.1, notEqual.2]
      | greater =>
          have notEqual : next ≠ '=' := by simpa [Lexeme.readsOn] using stops
          simp [spelling, splitHead?, notEqual]
      | _ => rfl

theorem readsOn_of_splitHead? {text rest : List Char} {symbol : Symbol}
    (found : splitHead? text = some (symbol, rest)) :
    ∀ next ∈ rest.head?, (Lexeme.symbol symbol).readsOn next = false := by
  intro next member
  rcases List.head?_eq_some_iff.mp member with ⟨tail, rfl⟩
  rw [splitHead?.eq_def] at found
  split at found <;> cases found <;> simp_all [Lexeme.readsOn]

theorem splitHead?_eq_none_iff {first : Char} {tail : List Char} :
    splitHead? (first :: tail) = none ↔ first ∉ heads := by
  constructor
  · intro missing member
    rw [splitHead?.eq_def] at missing
    split at missing
    case h_17 => simp_all [heads]
    all_goals cases missing
  · intro outside
    cases found : splitHead? (first :: tail) with
    | none => rfl
    | some taken =>
        rcases taken with ⟨symbol, rest⟩
        have whole := splitHead?_append found
        cases symbol <;> injection whole with equal <;> subst equal <;>
          exact absurd (by decide) outside

end Symbol

/-! ## Which rule reads -/

namespace Scan

theorem ofText_of_isDigit {first : Char} {tail : List Char}
    (digit : first.isDigit = true) :
    ofText (first :: tail) = number (first :: tail) := by
  have unquoted := ne_quote_of_isNameTail (isNameTail_of_isDigit digit)
  simp [ofText, digit]

theorem ofText_of_isAlpha {first : Char} {tail : List Char}
    (letter : first.isAlpha = true) :
    ofText (first :: tail) = name (first :: tail) := by
  have unquoted := ne_quote_of_isNameTail (isNameTail_of_isAlpha letter)
  simp [ofText, isDigit_eq_false_of_isAlpha letter, letter]

/-! ## A spelling is taken as a whole -/

theorem number_run {digits rest : List Char}
    (decimal : ∀ digit ∈ digits, digit.isDigit = true)
    (maximal : ∀ next ∈ rest.head?, next.isDigit = false) :
    number (digits ++ rest) =
      { outcome :=
          if Nat.ofDigitChars 10 digits 0 ≤ Lexeme.largestInt then
            .ok (.int (Int64.ofNat (Nat.ofDigitChars 10 digits 0)))
          else .error (.integerOverflow (String.ofList digits))
        consumed := digits
        rest := rest } := by
  simp [number, takeWhile_run decimal maximal, dropWhile_run decimal maximal]

theorem string_closed {content rest : List Char} (unquoted : '"' ∉ content) :
    string (content ++ '"' :: rest) =
      ⟨.ok (.str (String.ofList content)), '"' :: content ++ ['"'], rest⟩ := by
  have inside : ∀ character ∈ content, decide (character ≠ '"') = true := by
    intro character member
    exact decide_eq_true fun equal => unquoted (equal ▸ member)
  have outside : ∀ next ∈ ('"' :: rest).head?, decide (next ≠ '"') = false := by
    simp
  rw [string]
  rw [takeWhile_run inside outside, dropWhile_run inside outside]

theorem string_open {content : List Char} (unquoted : '"' ∉ content) :
    string content = ⟨.error .unterminatedString, '"' :: content, []⟩ := by
  have inside : ∀ character ∈ content, decide (character ≠ '"') = true := by
    intro character member
    exact decide_eq_true fun equal => unquoted (equal ▸ member)
  rw [string]
  rw [List.takeWhile_eq_self_iff.mpr inside, List.dropWhile_eq_nil_iff.mpr inside]

/-- A spelling that stands apart from what follows is what the step takes. -/
theorem ofText_spelling {lexeme : Lexeme} {spelling text : List Char}
    (spelled : lexeme.Spelled spelling)
    (apart : ∀ next ∈ text.head?, lexeme.readsOn next = false) :
    ofText (spelling ++ text) = ⟨.ok lexeme, spelling, text⟩ := by
  cases spelled with
  | @int _ nonempty decimal inRange =>
      rcases List.exists_cons_of_ne_nil nonempty with ⟨first, tail, rfl⟩
      rw [List.cons_append, ofText_of_isDigit (decimal first List.mem_cons_self),
        ← List.cons_append, number_run decimal apart, if_pos inRange]
  | @ident identifier shaped =>
      rcases exists_cons_of_isName shaped with ⟨first, tail, equal, letter, inside⟩
      rw [equal, List.cons_append, ofText_of_isAlpha letter,
        ← List.cons_append, name, takeWhile_run inside apart,
        dropWhile_run inside apart, ← equal, String.ofList_toList]
  | symbol value =>
      exact ofText_of_splitHead? (value.splitHead?_spelling apart)
  | @str content unquoted =>
      have closed : string (content.toList ++ '"' :: text) = _ :=
        string_closed unquoted
      rw [String.ofList_toList] at closed
      simpa [ofText] using closed

end Scan

/-! ## Everything that a step can do -/

/-- A defect at the head of a text: what is passed over before it is reported,
and what is left. A digit run is passed, a string without an end takes all that
follows, and a character that begins no lexeme stays where it is. -/
inductive Defect.Heads : Defect → List Char → List Char → Prop
  | unexpectedCharacter {character : Char} {tail : List Char}
      (inked : isBlank character = false) (unquoted : character ≠ '"')
      (noDigit : character.isDigit = false) (noLetter : character.isAlpha = false)
      (noSymbol : character ∉ Symbol.heads) :
      Heads (.unexpectedCharacter character) [] (character :: tail)
  | integerOverflow {digits rest : List Char}
      (decimal : ∀ digit ∈ digits, digit.isDigit = true)
      (maximal : ∀ next ∈ rest.head?, next.isDigit = false)
      (large : Lexeme.largestInt < Nat.ofDigitChars 10 digits 0) :
      Heads (.integerOverflow (String.ofList digits)) digits rest
  | unterminatedString {content : List Char} (unquoted : '"' ∉ content) :
      Heads .unterminatedString ('"' :: content) []

namespace Scan

/-- The reading steps that the rules of spelling allow. -/
inductive Step : List Char → Scan → Prop
  | finish : Step [] ⟨.ok .endOfInput, [], []⟩
  | take {lexeme : Lexeme} {spelling rest : List Char}
      (spelled : lexeme.Spelled spelling)
      (apart : ∀ next ∈ rest.head?, lexeme.readsOn next = false) :
      Step (spelling ++ rest) ⟨.ok lexeme, spelling, rest⟩
  | fail {defect : Defect} {passed rest : List Char}
      (heads : defect.Heads passed rest) :
      Step (passed ++ rest) ⟨.error defect, passed, rest⟩

theorem step_number {first : Char} {tail : List Char}
    (digit : first.isDigit = true) :
    Step (first :: tail) (number (first :: tail)) := by
  have decimal : ∀ digit ∈ (first :: tail).takeWhile Char.isDigit,
      digit.isDigit = true := fun _ member => List.mem_takeWhile_imp member
  have maximal := outside_dropWhile Char.isDigit (first :: tail)
  have whole := List.takeWhile_append_dropWhile
    (p := Char.isDigit) (l := first :: tail)
  have nonempty : (first :: tail).takeWhile Char.isDigit ≠ [] := by
    simp [digit]
  generalize (first :: tail).takeWhile Char.isDigit = digits at *
  generalize (first :: tail).dropWhile Char.isDigit = rest at *
  rw [← whole, number_run decimal maximal]
  split
  · rename_i inRange
    exact .take (.int nonempty decimal inRange) maximal
  · rename_i large
    exact .fail (.integerOverflow decimal maximal (Nat.lt_of_not_le large))

theorem step_name {first : Char} {tail : List Char}
    (letter : first.isAlpha = true) :
    Step (first :: tail) (name (first :: tail)) := by
  have whole := List.takeWhile_append_dropWhile
    (p := isNameTail) (l := first :: tail)
  have shaped : isName (String.ofList ((first :: tail).takeWhile isNameTail)) =
      true := by
    have inside : (tail.takeWhile isNameTail).all isNameTail = true :=
      List.all_eq_true.mpr fun _ member => List.mem_takeWhile_imp member
    simp [isName, isNameTail_of_isAlpha letter, letter, inside]
  have taken := Step.take (.ident shaped)
    (outside_dropWhile isNameTail (first :: tail))
  rwa [String.toList_ofList, whole] at taken

theorem step_string (body : List Char) : Step ('"' :: body) (string body) := by
  have inside : '"' ∉ body.takeWhile fun next => decide (next ≠ '"') := by
    intro member
    have differs := List.mem_takeWhile_imp member
    simp at differs
  have outside := outside_dropWhile (fun next => decide (next ≠ '"')) body
  have whole := List.takeWhile_append_dropWhile
    (p := fun next : Char => decide (next ≠ '"')) (l := body)
  generalize body.takeWhile (fun next => decide (next ≠ '"')) = content at *
  generalize body.dropWhile (fun next => decide (next ≠ '"')) = rest at *
  subst whole
  cases rest with
  | nil =>
      rw [List.append_nil, string_open inside]
      simpa using Step.fail (.unterminatedString inside)
  | cons quote rest =>
      have closing : quote = '"' := by simpa using outside quote rfl
      subst closing
      rw [string_closed inside]
      have spelled : (Lexeme.str (String.ofList content)).Spelled
          ('"' :: content ++ ['"']) := by
        simpa using @Lexeme.Spelled.str (String.ofList content)
          (by simpa using inside)
      have apart : ∀ next ∈ rest.head?,
          (Lexeme.str (String.ofList content)).readsOn next = false :=
        fun _ _ => rfl
      simpa using Step.take spelled apart

/-- A step on a text that does not begin with a blank. -/
theorem step_ofText {text : List Char}
    (inked : ∀ next ∈ text.head?, isBlank next = false) :
    Step text (ofText text) := by
  rw [ofText.eq_def]
  split
  · exact .finish
  · exact step_string _
  · rename_i first tail unquoted
    split
    · exact step_number ‹_›
    · rename_i noDigit
      split
      · exact step_name ‹_›
      · rename_i noLetter
        split
        · rename_i symbol rest found
          rw [← Symbol.splitHead?_append found]
          exact .take (.symbol symbol) (Symbol.readsOn_of_splitHead? found)
        · rename_i missing
          exact .fail (.unexpectedCharacter (inked first rfl) unquoted
            (Bool.eq_false_iff.mpr noDigit) (Bool.eq_false_iff.mpr noLetter)
            (Symbol.splitHead?_eq_none_iff.mp missing))

theorem ne_nil_of_largestInt_lt {digits : List Char}
    (large : Lexeme.largestInt < Nat.ofDigitChars 10 digits 0) :
    digits ≠ [] := by
  intro empty
  simp [empty] at large

/-- The rules of spelling leave no choice. -/
theorem Step.eq_ofText {text : List Char} {scan : Scan} (step : Step text scan) :
    ofText text = scan := by
  cases step with
  | finish => rfl
  | take spelled apart => exact ofText_spelling spelled apart
  | fail heads =>
      cases heads with
      | @unexpectedCharacter first tail inked unquoted noDigit noLetter noSymbol =>
          have missing : Symbol.splitHead? (first :: tail) = none :=
            Symbol.splitHead?_eq_none_iff.mpr noSymbol
          simp [ofText, noDigit, noLetter, missing]
      | integerOverflow decimal maximal large =>
          rcases List.exists_cons_of_ne_nil
            (ne_nil_of_largestInt_lt large) with ⟨first, tail, rfl⟩
          rw [List.cons_append,
            ofText_of_isDigit (decimal first List.mem_cons_self),
            ← List.cons_append, number_run decimal maximal,
            if_neg (Nat.not_le_of_lt large)]
      | unterminatedString unquoted =>
          rw [List.append_nil]
          exact string_open unquoted

end Scan

end LineBasic
