import LineBasic.Lexeme.Scan
import LineBasic.Scanner.Basic

/-! A scanner between the characters of its text.

Where the position counts the bytes of what has been read, every cut succeeds, and
an operation does to the unread characters what it would do to a list of them. So
all lexemes can be taken one after the other: each step but the last goes on. -/

namespace LineBasic

namespace Scanner

/-- The scanner between what has been read of a text and what has not. -/
def between (read unread : List Char) : Scanner :=
  ⟨String.ofList (read ++ unread), byteLength read⟩

/-- What a scan of the unread characters says to the scanner in front of them. -/
def told (read : List Char) (scan : Scan) : Answer :=
  (scan.outcome.mapError fun defect => ⟨defect, byteLength read⟩,
    between (read ++ scan.consumed) scan.rest)

section

variable (read : List Char)

@[simp] theorem told_ok (lexeme : Lexeme) (consumed rest : List Char) :
    told read ⟨.ok lexeme, consumed, rest⟩ =
      (.ok lexeme, between (read ++ consumed) rest) := rfl

@[simp] theorem told_error (defect : Defect) (consumed rest : List Char) :
    told read ⟨.error defect, consumed, rest⟩ =
      (.error ⟨defect, byteLength read⟩, between (read ++ consumed) rest) := rfl

/-! ## Single characters and runs -/

theorem remaining?_between (unread : List Char) :
    (between read unread).remaining? = some (String.ofList unread) := by
  apply remaining?_eq_some_iff.mpr
  refine ⟨String.ofList read, String.ofList_append.symm, ?_⟩
  rw [← byteLength_toList, String.toList_ofList]
  rfl

theorem peek?_between (unread : List Char) :
    (between read unread).peek? = some unread.head? := by
  rw [peek?_eq_map_remaining?, remaining?_between, Option.map_some,
    String.toList_ofList]

theorem pass_between (first : Char) (tail : List Char) :
    (between read (first :: tail)).pass first = between (read ++ [first]) tail := by
  simp [between, pass]

theorem advance?_between_nil :
    (between read []).advance? = some (none, between read []) := by
  rw [advance?, peek?_between]
  rfl

theorem advance?_between_cons (first : Char) (tail : List Char) :
    (between read (first :: tail)).advance? =
      some (some first, between (read ++ [first]) tail) := by
  rw [advance?, peek?_between, ← pass_between]
  rfl

theorem skipWhile?_between (belongs : Char → Bool) (unread : List Char) :
    (between read unread).skipWhile? belongs =
      some (between (read ++ unread.takeWhile belongs)
        (unread.dropWhile belongs)) := by
  induction unread generalizing read with
  | nil =>
      rw [skipWhile?_eq_bind, peek?_between]
      simp
  | cons first tail induction =>
      rw [skipWhile?_eq_bind, peek?_between]
      cases inside : belongs first with
      | false => simp [inside]
      | true => simp [inside, pass_between, induction]

theorem takeWhile?_between (belongs : Char → Bool) (unread : List Char) :
    (between read unread).takeWhile? belongs =
      some (String.ofList (unread.takeWhile belongs),
        between (read ++ unread.takeWhile belongs) (unread.dropWhile belongs)) := by
  have cut : slice? (between read unread).source (between read unread).position
      (between (read ++ unread.takeWhile belongs)
        (unread.dropWhile belongs)).position =
      some (String.ofList (unread.takeWhile belongs)) := by
    apply slice?_eq_some_iff.mpr
    refine ⟨String.ofList read, String.ofList (unread.dropWhile belongs), ?_, ?_, ?_⟩
    · rw [← String.ofList_append, ← String.ofList_append,
        List.takeWhile_append_dropWhile]
      rfl
    · rw [← byteLength_toList, String.toList_ofList]
      rfl
    · rw [← String.ofList_append, ← byteLength_toList, String.toList_ofList]
      rfl
  rw [takeWhile?, skipWhile?_between]
  simp only [Option.bind_eq_bind, Option.bind_some, cut]
  rfl

/-! ## One step -/

theorem number?_between (unread : List Char) :
    (between read unread).number? = some (told read (Scan.number unread)) := by
  rw [number?, takeWhile?_between]
  simp only [Option.bind_eq_bind, Option.bind_some, String.toList_ofList, told,
    Scan.number]
  split <;> rfl

theorem name?_between (unread : List Char) :
    (between read unread).name? = some (told read (Scan.name unread)) := by
  rw [name?, takeWhile?_between]
  rfl

theorem string?_between (body : List Char) :
    (between read ('"' :: body)).string? = some (told read (Scan.string body)) := by
  rw [string?, advance?_between_cons]
  simp only [Option.bind_eq_bind, Option.bind_some, takeWhile?_between, Scan.string]
  cases body.dropWhile fun character => decide (character ≠ '"') with
  | nil =>
      rw [advance?_between_nil]
      simp [between]
  | cons quote rest =>
      rw [advance?_between_cons]
      simp

/-- A symbol is passed over as it is spelled. -/
theorem told_of_splitHead? (spelled : List Char) {text rest : List Char}
    {symbol : Symbol} (found : Symbol.splitHead? text = some (symbol, rest))
    (whole : text = spelled ++ rest) :
    told read (Scan.ofText text) =
      (.ok (.symbol symbol), between (read ++ spelled) rest) := by
  have same : symbol.spelling.toList = spelled :=
    List.append_cancel_right ((Symbol.splitHead?_append found).trans whole)
  rw [Scan.ofText_of_splitHead? found, told, same]
  rfl

theorem comparison?_between {first : Char} (tail : List Char)
    (compares : first = '<' ∨ first = '>') :
    (between read (first :: tail)).comparison? first =
      some (told read (Scan.ofText (first :: tail))) := by
  rw [comparison?, advance?_between_cons]
  simp only [Option.bind_eq_bind, Option.bind_some, peek?_between]
  cases spells : Symbol.double? first tail.head? with
  | none =>
      have found := Symbol.splitHead?_of_comparison compares spells
      rw [told_of_splitHead? read [first] found rfl]
      rfl
  | some symbol =>
      cases tail with
      | nil => rcases compares with rfl | rfl <;> cases spells
      | cons second rest =>
          have found := Symbol.splitHead?_of_double? spells rest
          rw [told_of_splitHead? read [first, second] found rfl,
            advance?_between_cons, List.append_assoc]
          rfl

theorem lexeme?_between (first : Char) (tail : List Char) :
    (between read (first :: tail)).lexeme? first =
      some (told read (Scan.ofText (first :: tail))) := by
  by_cases quote : first = '"'
  · subst quote
    exact string?_between read tail
  · rw [lexeme?, if_neg quote]
    by_cases digit : first.isDigit
    · rw [if_pos digit, number?_between, Scan.ofText_cons tail quote, if_pos digit]
    · rw [if_neg digit]
      by_cases letter : first.isAlpha
      · rw [if_pos letter, name?_between, Scan.ofText_cons tail quote, if_neg digit,
          if_pos letter]
      · rw [if_neg letter]
        by_cases compares : first = '<' ∨ first = '>'
        · rw [if_pos compares, comparison?_between read tail compares]
        · rw [if_neg compares]
          cases spells : Symbol.single? first with
          | some symbol =>
              have found := Symbol.splitHead?_of_single? spells tail
              rw [told_of_splitHead? read [first] found rfl]
              simp [advance?_between_cons]
          | none =>
              have missing := Symbol.splitHead?_eq_none tail compares spells
              rw [Scan.ofText_cons tail quote, if_neg digit, if_neg letter, missing]
              simp [between]

/-- A step does to the unread characters what the rules of reading say. -/
theorem next?_between (unread : List Char) :
    let blanks := unread.takeWhile isBlank
    (between read unread).next? =
      some (told (read ++ blanks) (Scan.ofText (unread.dropWhile isBlank))) := by
  intro blanks
  rw [next?, skipWhile?_between]
  simp only [Option.bind_eq_bind, Option.bind_some, peek?_between]
  cases unread.dropWhile isBlank with
  | nil => simp [Scan.ofText, blanks]
  | cons first tail => exact lexeme?_between _ first tail

end

/-! ## All steps -/

theorem exists_between {scanner : Scanner} {unread : String}
    (remains : scanner.remaining? = some unread) :
    ∃ read, scanner = between read unread.toList := by
  rcases remaining?_eq_some_iff.mp remains with ⟨read, whole, counted⟩
  refine ⟨read.toList, ?_⟩
  rw [between, byteLength_toList, String.ofList_append, String.ofList_toList,
    String.ofList_toList, whole, ← counted]

/-- A step begins by looking at what is unread. -/
theorem exists_remaining? {scanner : Scanner} {answer : Answer}
    (step : scanner.next? = some answer) :
    ∃ unread, scanner.remaining? = some unread := by
  cases remains : scanner.remaining? with
  | none =>
      rw [next?, skipWhile?_eq_bind, peek?_eq_map_remaining?, remains] at step
      cases step
  | some unread => exact ⟨unread, rfl⟩

theorem length_sub_position_between (read unread : List Char) :
    (between read unread).length - (between read unread).position =
      byteLength unread := by
  rw [length, ← byteLength_toList]
  simp [between]

theorem next?_progress {scanner after : Scanner} {lexeme : Lexeme}
    (step : scanner.next? = some (.ok lexeme, after)) (more : lexeme ≠ .endOfInput) :
    after.length - after.position < scanner.length - scanner.position := by
  rcases exists_remaining? step with ⟨text, remains⟩
  rcases exists_between remains with ⟨read, rfl⟩
  generalize text.toList = unread at *
  rw [next?_between] at step
  injection step with step
  injection step with outcome state
  have scanned := Scan.outcome_eq_ok outcome
  have taken : byteLength (Scan.ofText (unread.dropWhile isBlank)).consumed ≠ 0 :=
    fun nothing => Scan.consumed_ne_nil scanned more (byteLength_eq_zero_iff.mp nothing)
  have blanks := congrArg byteLength
    (List.takeWhile_append_dropWhile (p := isBlank) (l := unread))
  have whole := congrArg byteLength
    (Scan.consumed_append_rest (unread.dropWhile isBlank))
  rw [byteLength_append] at blanks whole
  rw [← state, length_sub_position_between, length_sub_position_between]
  omega

/-- Takes all lexemes up to and with the end marker, or stops at the first
defect. -/
def tokenize? (scanner : Scanner) :
    Option (Except LexError (List Lexeme) × Scanner) :=
  match _ : scanner.next? with
  | none => none
  | some (.error error, after) => some (.error error, after)
  | some (.ok lexeme, after) =>
      if _ : lexeme = .endOfInput then some (.ok [.endOfInput], after)
      else
        after.tokenize?.map fun (lexemes, final) => (lexemes.map (lexeme :: ·), final)
termination_by scanner.length - scanner.position
decreasing_by exact next?_progress ‹_› ‹_›

theorem tokenize?_eq_bind (scanner : Scanner) :
    scanner.tokenize? = scanner.next?.bind fun
      | (.error error, after) => some (.error error, after)
      | (.ok lexeme, after) =>
          if lexeme = .endOfInput then some (.ok [.endOfInput], after)
          else
            after.tokenize?.map fun (lexemes, final) =>
              (lexemes.map (lexeme :: ·), final) := by
  rw [tokenize?]
  split <;> rename_i step <;> rw [step]
  · rfl
  · rfl
  · rfl

end Scanner

/-- All lexemes of a text. -/
def lex? (source : String) : Option (Except LexError (List Lexeme)) :=
  (Scanner.ofText source).tokenize?.map Prod.fst

end LineBasic
