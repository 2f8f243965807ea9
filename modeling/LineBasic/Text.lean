/-! Character classes of the language, and the length of text in bytes. The
classes hold ASCII characters only; everything else occurs inside quotes and
remarks alone. -/

namespace LineBasic

/-- Lexemes may stand apart by blanks. A line break is not one of them. -/
def isBlank (character : Char) : Bool :=
  character = ' ' || character = '\t'

/-- A character that may follow the first letter of a name. -/
def isNameTail (character : Char) : Bool :=
  character.isAlphanum || character = '_'

/-- A letter and any number of letters, digits and underscores. -/
def isName (text : String) : Bool :=
  match text.toList with
  | [] => false
  | first :: tail => first.isAlpha && tail.all isNameTail

theorem isNameTail_of_isAlpha {character : Char}
    (letter : character.isAlpha = true) : isNameTail character = true := by
  simp [isNameTail, Char.isAlphanum, letter]

/-! ## Length in bytes -/

/-- The number of bytes that the characters take in UTF-8. -/
def byteLength : List Char → Nat
  | [] => 0
  | head :: tail => head.utf8Size + byteLength tail

@[simp] theorem byteLength_nil : byteLength [] = 0 := rfl

@[simp] theorem byteLength_cons (head : Char) (tail : List Char) :
    byteLength (head :: tail) = head.utf8Size + byteLength tail := rfl

@[simp] theorem byteLength_append (left right : List Char) :
    byteLength (left ++ right) = byteLength left + byteLength right := by
  induction left with
  | nil => simp
  | cons head tail induction => simp [induction, Nat.add_assoc]

theorem length_le_byteLength (characters : List Char) :
    characters.length ≤ byteLength characters := by
  induction characters with
  | nil => exact Nat.le_refl _
  | cons head tail induction =>
      have positive := head.utf8Size_pos
      rw [byteLength_cons, List.length_cons]
      omega

theorem byteLength_eq_zero_iff {characters : List Char} :
    byteLength characters = 0 ↔ characters = [] := by
  constructor
  · intro empty
    have bound := length_le_byteLength characters
    exact List.eq_nil_of_length_eq_zero (by omega)
  · rintro rfl
    rfl

theorem byteLength_toList (text : String) :
    byteLength text.toList = text.utf8ByteSize := by
  suffices ofList : ∀ characters : List Char,
      (String.ofList characters).utf8ByteSize = byteLength characters by
    simpa using (ofList text.toList).symm
  intro characters
  induction characters with
  | nil => rfl
  | cons head tail induction =>
      have split : String.ofList (head :: tail) =
          String.singleton head ++ String.ofList tail := by
        rw [← List.singleton_append, String.ofList_append]
        rfl
      rw [split, String.utf8ByteSize_append, induction, byteLength_cons,
        String.utf8ByteSize_singleton]

end LineBasic
