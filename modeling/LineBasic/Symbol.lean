/-! Operator and punctuation symbols and how they are spelled. -/

namespace LineBasic

inductive Symbol where
  | plus
  | minus
  | star
  | slash
  | percent
  | ampersand
  | bar
  | bang
  | equal
  | leftParen
  | rightParen
  | less
  | lessEqual
  | greater
  | greaterEqual
  | notEqual
deriving DecidableEq, Repr

namespace Symbol

def spelling : Symbol → String
  | plus => "+"
  | minus => "-"
  | star => "*"
  | slash => "/"
  | percent => "%"
  | ampersand => "&"
  | bar => "|"
  | bang => "!"
  | equal => "="
  | leftParen => "("
  | rightParen => ")"
  | less => "<"
  | lessEqual => "<="
  | greater => ">"
  | greaterEqual => ">="
  | notEqual => "<>"

instance : ToString Symbol := ⟨spelling⟩

/-- Splits off the symbol at the head of a text. Where two symbols match, the
longer one is taken, so `<=` is one symbol and `=<` are two. -/
def splitHead? : List Char → Option (Symbol × List Char)
  | '<' :: '=' :: rest => some (lessEqual, rest)
  | '<' :: '>' :: rest => some (notEqual, rest)
  | '>' :: '=' :: rest => some (greaterEqual, rest)
  | '<' :: rest => some (less, rest)
  | '>' :: rest => some (greater, rest)
  | '+' :: rest => some (plus, rest)
  | '-' :: rest => some (minus, rest)
  | '*' :: rest => some (star, rest)
  | '/' :: rest => some (slash, rest)
  | '%' :: rest => some (percent, rest)
  | '&' :: rest => some (ampersand, rest)
  | '|' :: rest => some (bar, rest)
  | '!' :: rest => some (bang, rest)
  | '=' :: rest => some (equal, rest)
  | '(' :: rest => some (leftParen, rest)
  | ')' :: rest => some (rightParen, rest)
  | _ => none

/-- The symbol that a character spells, if it does not begin a longer one. -/
def single? : Char → Option Symbol
  | '+' => some plus
  | '-' => some minus
  | '*' => some star
  | '/' => some slash
  | '%' => some percent
  | '&' => some ampersand
  | '|' => some bar
  | '!' => some bang
  | '=' => some equal
  | '(' => some leftParen
  | ')' => some rightParen
  | _ => none

/-- The symbol that a character spells together with the one behind it. -/
def double? : Char → Option Char → Option Symbol
  | '<', some '=' => some lessEqual
  | '<', some '>' => some notEqual
  | '>', some '=' => some greaterEqual
  | _, _ => none

theorem splitHead?_append {text rest : List Char} {symbol : Symbol}
    (found : splitHead? text = some (symbol, rest)) :
    symbol.spelling.toList ++ rest = text := by
  unfold splitHead? at found
  split at found <;> cases found <;> rfl

theorem splitHead?_of_single? {first : Char} {symbol : Symbol}
    (spells : single? first = some symbol) (tail : List Char) :
    splitHead? (first :: tail) = some (symbol, tail) := by
  unfold single? at spells
  split at spells <;> cases spells <;> rfl

theorem splitHead?_of_double? {first second : Char} {symbol : Symbol}
    (spells : double? first (some second) = some symbol) (tail : List Char) :
    splitHead? (first :: second :: tail) = some (symbol, tail) := by
  unfold double? at spells
  split at spells
  case h_4 => cases spells
  all_goals
    rename_i same
    cases same
    cases spells
    rfl

theorem splitHead?_of_comparison {first : Char} {tail : List Char}
    (compares : first = '<' ∨ first = '>') (alone : double? first tail.head? = none) :
    splitHead? (first :: tail) =
      some (if first = '<' then less else greater, tail) := by
  cases tail with
  | nil => rcases compares with rfl | rfl <;> rfl
  | cons second rest =>
      rcases compares with rfl | rfl
      · have notEqual : second ≠ '=' := by
          rintro rfl
          cases alone
        have notGreater : second ≠ '>' := by
          rintro rfl
          cases alone
        simp [splitHead?, notEqual, notGreater]
      · have notEqual : second ≠ '=' := by
          rintro rfl
          cases alone
        simp [splitHead?, notEqual]

theorem splitHead?_eq_none {first : Char} (tail : List Char)
    (compares : ¬ (first = '<' ∨ first = '>')) (missing : single? first = none) :
    splitHead? (first :: tail) = none := by
  unfold splitHead?
  split <;> simp_all [single?]

theorem spelling_ne_nil (symbol : Symbol) : symbol.spelling.toList ≠ [] := by
  cases symbol <;> decide

end Symbol

end LineBasic
