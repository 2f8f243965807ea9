import LineBasic.Proofs.Lexing.Tokenize
import Mathlib.Data.List.Chain

/-! Layouts: the ways in which a text is composed of blanks and spellings.

A text has the lexemes of a layout exactly if it is the text of that layout,
and no text has two layouts. -/

namespace LineBasic

/-- A lexeme in a text: its spelling, and the blanks in front of it. -/
@[ext] structure Token where
  blanks : List Char
  lexeme : Lexeme
  spelling : List Char
  blank : ∀ character ∈ blanks, isBlank character = true
  spelled : lexeme.Spelled spelling

def Token.text (token : Token) : List Char := token.blanks ++ token.spelling

/-- Whether the second lexeme must not be spelled right behind the first. -/
def Lexeme.fuses : Lexeme → Lexeme → Bool
  | ident _, ident _ | ident _, int _ | int _, int _ => true
  | symbol .less, symbol second =>
      second.spelling.toList.head? = some '=' ||
        second.spelling.toList.head? = some '>'
  | symbol .greater, symbol second => second.spelling.toList.head? = some '='
  | _, _ => false

/-- Whether the second token may follow the first. -/
def Token.Apart (first second : Token) : Prop :=
  second.blanks = [] → first.lexeme.fuses second.lexeme = false

/-- Tokens in order, with blanks behind the last one. -/
@[ext] structure Layout where
  tokens : List Token
  trailing : List Char
  blank : ∀ character ∈ trailing, isBlank character = true
  apart : tokens.IsChain Token.Apart

namespace Layout

def text (layout : Layout) : List Char :=
  layout.tokens.flatMap Token.text ++ layout.trailing

def lexemes (layout : Layout) : List Lexeme :=
  layout.tokens.map Token.lexeme

end Layout

/-! ## Fusing and reading on -/

theorem Symbol.isNameTail_head (symbol : Symbol) :
    ∀ next ∈ symbol.spelling.toList.head?, isNameTail next = false := by
  intro next member
  cases symbol <;> cases member <;> rfl

theorem Lexeme.readsOn_symbol_of_isNameTail (symbol : Symbol) {next : Char}
    (tail : isNameTail next = true) :
    (Lexeme.symbol symbol).readsOn next = false := by
  have notEqual : next ≠ '=' := by
    intro equal
    rw [equal] at tail
    exact absurd tail (by decide)
  have notGreater : next ≠ '>' := by
    intro equal
    rw [equal] at tail
    exact absurd tail (by decide)
  exact readsOn_symbol_of_ne symbol notEqual notGreater

/-- What a lexeme does with the lexeme behind it is told by the character with
which that one begins. -/
theorem Lexeme.Spelled.readsOn_head {second : Lexeme} {spelling : List Char}
    (spelled : second.Spelled spelling) (first : Lexeme) :
    ∀ next ∈ spelling.head?, first.readsOn next = first.fuses second := by
  intro next member
  cases spelled with
  | int nonempty decimal inRange =>
      have digit := decimal next (List.mem_of_mem_head? member)
      have tail := isNameTail_of_isDigit digit
      cases first with
      | int _ => exact digit
      | ident _ => exact tail
      | symbol symbol =>
          rw [readsOn_symbol_of_isNameTail symbol tail]
          cases symbol <;> rfl
      | str _ | endOfInput => rfl
  | ident shaped =>
      rcases exists_cons_of_isName shaped with ⟨start, others, equal, letter, -⟩
      rw [equal, List.head?_cons, Option.mem_some_iff] at member
      subst member
      cases first with
      | int _ => exact isDigit_eq_false_of_isAlpha letter
      | ident _ => exact isNameTail_of_isAlpha letter
      | symbol symbol =>
          rw [readsOn_symbol_of_isNameTail symbol (isNameTail_of_isAlpha letter)]
          cases symbol <;> rfl
      | str _ | endOfInput => rfl
  | symbol value =>
      have listed : value.spelling.toList.head? = some next := member
      cases first with
      | int _ =>
          exact isDigit_eq_false_of_not_isNameTail (value.isNameTail_head next listed)
      | ident _ => exact value.isNameTail_head next listed
      | symbol symbol =>
          cases symbol <;> simp [readsOn, fuses, listed]
      | str _ | endOfInput => rfl
  | str unquoted =>
      have quote : next = '"' := (Option.some.inj member).symm
      subst quote
      cases first with
      | symbol symbol => cases symbol <;> rfl
      | _ => rfl

/-- In a chain of tokens the first is not read on into what follows. -/
theorem Token.apart_of_isChain {token : Token} {tokens : List Token}
    {trailing : List Char}
    (blank : ∀ character ∈ trailing, isBlank character = true)
    (chain : (token :: tokens).IsChain Token.Apart) :
    ∀ next ∈ (tokens.flatMap Token.text ++ trailing).head?,
      token.lexeme.readsOn next = false := by
  intro next member
  cases tokens with
  | nil =>
      exact token.lexeme.readsOn_of_isBlank
        (blank next (List.mem_of_mem_head? member))
  | cons second others =>
      have apart := (List.isChain_cons_cons.mp chain).1
      rcases second.spelled.exists_cons with ⟨start, tail, spelling, -⟩
      cases empty : second.blanks with
      | nil =>
          have same : start = next := by
            simpa [Token.text, empty, spelling] using member
          rw [second.spelled.readsOn_head token.lexeme next
            (by rw [spelling, same]; rfl)]
          exact apart empty
      | cons first more =>
          have same : first = next := by
            simpa [Token.text, empty] using member
          have isBlank := second.blank first (by simp [empty])
          exact token.lexeme.readsOn_of_isBlank (same ▸ isBlank)

/-! ## Layouts of spelled texts -/

theorem Spelling.blanks {lexemes : List Lexeme} {text rest : List Char}
    {run : List Char} (blank : ∀ character ∈ run, isBlank character = true)
    (behind : Spelling lexemes text rest) :
    Spelling lexemes (run ++ text) rest := by
  induction run with
  | nil => exact behind
  | cons first tail induction =>
      exact .blank (blank first List.mem_cons_self)
        (induction fun character member =>
          blank character (List.mem_cons_of_mem first member))

theorem Layout.spelling (layout : Layout) :
    Spelling layout.lexemes layout.text [] := by
  rcases layout with ⟨tokens, trailing, blank, chain⟩
  simp only [lexemes, text]
  induction tokens with
  | nil =>
      simpa using Spelling.blanks blank (@Spelling.rest [] (by simp))
  | cons token tokens induction =>
      have behind := induction (List.IsChain.tail chain)
      have taken := Spelling.lexeme token.spelled
        (Token.apart_of_isChain blank chain) behind
      simpa [Token.text, List.append_assoc] using
        Spelling.blanks token.blank taken

theorem exists_layout {lexemes : List Lexeme} {text : List Char}
    (spelling : Spelling lexemes text []) :
    ∃ layout : Layout, layout.text = text ∧ layout.lexemes = lexemes := by
  generalize finish : ([] : List Char) = rest at spelling
  induction spelling with
  | rest inked =>
      subst finish
      exact ⟨⟨[], [], by simp, .nil⟩, rfl, rfl⟩
  | @blank lexemes first text rest skipped behind induction =>
      rcases induction finish with ⟨⟨tokens, trailing, blank, chain⟩, rfl, rfl⟩
      cases tokens with
      | nil =>
          have widened : ∀ character ∈ first :: trailing,
              isBlank character = true := List.forall_mem_cons.mpr ⟨skipped, blank⟩
          exact ⟨⟨[], first :: trailing, widened, .nil⟩, rfl, rfl⟩
      | cons token tokens =>
          let widened : Token := { token with
            blanks := first :: token.blanks
            blank := List.forall_mem_cons.mpr ⟨skipped, token.blank⟩ }
          refine ⟨⟨widened :: tokens, trailing, blank, ?_⟩, rfl, rfl⟩
          cases tokens with
          | nil => exact .singleton widened
          | cons second others =>
              rw [List.isChain_cons_cons] at chain ⊢
              exact chain
  | @lexeme lexeme lexemes written text rest spelled apart behind induction =>
      rcases induction finish with ⟨⟨tokens, trailing, blank, chain⟩, rfl, rfl⟩
      let token : Token := ⟨[], lexeme, written, by simp, spelled⟩
      refine ⟨⟨token :: tokens, trailing, blank, ?_⟩, ?_, rfl⟩
      · cases tokens with
        | nil => exact .singleton token
        | cons second others =>
            apply List.isChain_cons_cons.mpr
            refine ⟨?_, chain⟩
            intro empty
            rcases second.spelled.exists_cons with ⟨start, tail, equal, -⟩
            rw [← second.spelled.readsOn_head lexeme start (by rw [equal]; rfl)]
            exact apart start (by simp [Layout.text, Token.text, empty, equal])
      · simp [Layout.text, Token.text, token]

/-! ## One layout for a text -/

/-- What a token begins with is not blank behind its blanks. -/
theorem Token.inked (token : Token) (behind : List Char) :
    ∀ next ∈ (token.spelling ++ behind).head?, isBlank next = false := by
  rcases token.spelled.exists_cons with ⟨first, tail, equal, inked⟩
  simpa [equal] using inked

theorem Token.eq_of_text_eq {token other : Token} {behind otherBehind : List Char}
    (apart : ∀ next ∈ behind.head?, token.lexeme.readsOn next = false)
    (otherApart : ∀ next ∈ otherBehind.head?, other.lexeme.readsOn next = false)
    (same : token.text ++ behind = other.text ++ otherBehind) :
    token = other ∧ behind = otherBehind := by
  simp only [Token.text, List.append_assoc] at same
  have blanks : token.blanks = other.blanks := by
    rw [← takeWhile_run token.blank (token.inked behind), same,
      takeWhile_run other.blank (other.inked otherBehind)]
  have inked : token.spelling ++ behind = other.spelling ++ otherBehind := by
    rwa [blanks, List.append_cancel_left_eq] at same
  have scanned := Scan.ofText_spelling token.spelled apart
  rw [inked, Scan.ofText_spelling other.spelled otherApart] at scanned
  injection scanned with lexeme spelling behind
  exact ⟨Token.ext blanks (Except.ok.inj lexeme).symm spelling.symm, behind.symm⟩

/-- Blanks alone are not the text of a token. -/
theorem Token.text_append_ne_blanks (token : Token) (behind : List Char)
    {trailing : List Char}
    (blank : ∀ character ∈ trailing, isBlank character = true) :
    token.text ++ behind ≠ trailing := by
  intro same
  subst same
  rcases token.spelled.exists_cons with ⟨first, tail, equal, inked⟩
  have isBlank := blank first (by simp [Token.text, equal])
  rw [inked] at isBlank
  cases isBlank

theorem Layout.eq_of_text_eq {layout other : Layout}
    (same : layout.text = other.text) : layout = other := by
  rcases layout with ⟨tokens, trailing, blank, chain⟩
  rcases other with ⟨others, otherTrailing, otherBlank, otherChain⟩
  simp only [text, mk.injEq] at same ⊢
  induction tokens generalizing others with
  | nil =>
      cases others with
      | nil => exact ⟨rfl, same⟩
      | cons second others =>
          rw [List.flatMap_cons, List.append_assoc] at same
          exact absurd same.symm (second.text_append_ne_blanks _ blank)
  | cons first tokens induction =>
      rw [List.flatMap_cons, List.append_assoc] at same
      cases others with
      | nil => exact absurd same (first.text_append_ne_blanks _ otherBlank)
      | cons second others =>
          rw [List.flatMap_cons, List.append_assoc] at same
          rcases Token.eq_of_text_eq
            (Token.apart_of_isChain blank chain)
            (Token.apart_of_isChain otherBlank otherChain) same with ⟨rfl, behind⟩
          rcases induction chain.tail others otherChain.tail behind with ⟨rfl, rfl⟩
          exact ⟨rfl, rfl⟩

theorem Layout.endOfInput_notMem (layout : Layout) :
    .endOfInput ∉ layout.lexemes := by
  intro member
  rcases List.mem_map.mp member with ⟨token, -, equal⟩
  exact token.spelled.ne_endOfInput equal

/-! ## The token grammar -/

/-- A text is cut into some lexemes exactly if it is composed of their spellings
and of blanks, in the one way in which it can be. The end marker stands behind
these lexemes and nowhere among them. -/
theorem lex_eq_ok_iff_layout (source : String) :
    (∀ lexemes, lex source = .ok (lexemes ++ [.endOfInput]) ↔
        ∃ layout : Layout, layout.text = source.toList ∧
          layout.lexemes = lexemes) ∧
      (∀ layout other : Layout, layout.text = source.toList →
        other.text = source.toList → layout = other) ∧
      ∀ found, lex source = .ok found →
        ∃ lexemes, found = lexemes ++ [.endOfInput] ∧
          .endOfInput ∉ lexemes := by
  refine ⟨?_, ?_, ?_⟩
  · intro lexemes
    constructor
    · intro read
      rcases lex_eq_ok_iff_spelling.mp read with ⟨spelled, equal, spelling⟩
      rw [List.append_cancel_right_eq] at equal
      exact equal ▸ exists_layout spelling
    · intro composed
      rcases composed with ⟨layout, whole, rfl⟩
      exact lex_eq_ok_iff_spelling.mpr
        ⟨layout.lexemes, rfl, whole ▸ layout.spelling⟩
  · intro layout other whole otherWhole
    exact Layout.eq_of_text_eq (whole.trans otherWhole.symm)
  · intro found read
    rcases lex_eq_ok_iff_spelling.mp read with ⟨lexemes, equal, spelling⟩
    rcases exists_layout spelling with ⟨layout, -, rfl⟩
    exact ⟨layout.lexemes, equal, layout.endOfInput_notMem⟩

/-- Blanks may be missing where nothing fuses, and zeros may lead. -/
theorem lex_tight_text :
    lex "A<= 007" =
      .ok [.ident "A", .symbol .lessEqual, .int 7, .endOfInput] := by
  let name : Token :=
    ⟨[], .ident "A", "A".toList, by simp, .ident (by decide)⟩
  let comparison : Token :=
    ⟨[], .symbol .lessEqual, "<=".toList, by simp, .symbol .lessEqual⟩
  have decimal : ∀ digit ∈ "007".toList, digit.isDigit = true :=
    List.all_eq_true.mp rfl
  let number : Token :=
    ⟨[' '], .int 7, "007".toList, by simp [isBlank],
      @Lexeme.Spelled.int "007".toList (by simp) decimal (by decide)⟩
  have apart : [name, comparison, number].IsChain Token.Apart :=
    .cons_cons (fun _ => rfl) (.cons_cons (fun _ => rfl) (.singleton number))
  apply ((lex_eq_ok_iff_layout "A<= 007").1 [_, _, _]).mpr
  exact ⟨⟨[name, comparison, number], [], by simp, apart⟩, rfl, rfl⟩

end LineBasic
