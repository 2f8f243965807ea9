import LineBasic.Proofs.Lexing.Progress

/-! What a step of a cursor looks at.

A step goes over some text and looks at the one character behind it. Two cursors
that find the same there give the same answer and stop at the same place, however
different their texts are in front and farther on. The end marker and a string
without an end are the answers for which a cursor has to see that nothing more
follows. -/

namespace LineBasic

/-- Whether an answer depends on where the text ends. -/
def isKnownAtEnd : Except LexError Lexeme → Bool
  | .ok lexeme => lexeme = .endOfInput
  | .error ⟨.unterminatedString, _⟩ => true
  | .error ⟨.unexpectedCharacter _, _⟩ | .error ⟨.integerOverflow _, _⟩ => false

/-! ## Characters behind a step -/

/-- Of what it leaves unread a scan has seen the first character at most. -/
theorem Scan.Step.of_head?_eq {text rest : List Char} {scan : Scan} {position : Nat}
    (step : Step text scan)
    (early : isKnownAtEnd
      (scan.outcome.mapError fun defect => ⟨defect, position⟩) = false)
    (same : rest.head? = scan.rest.head?) :
    Step (scan.consumed ++ rest) { scan with rest := rest } := by
  cases step with
  | finish => cases early
  | take spelled apart => exact .take spelled (same ▸ apart)
  | fail heads =>
      cases heads with
      | unexpectedCharacter inked unquoted noDigit noLetter noSymbol =>
          -- The character itself has not been gone over.
          rcases List.head?_eq_some_iff.mp same with ⟨tail, rfl⟩
          exact .fail (.unexpectedCharacter inked unquoted noDigit noLetter noSymbol)
      | integerOverflow decimal maximal large =>
          exact .fail (.integerOverflow decimal (same ▸ maximal) large)
      | unterminatedString unquoted => cases early

namespace Cursor

theorem next_blanks {run text : List Char} (position : Nat)
    (blank : ∀ character ∈ run, isBlank character = true) :
    (⟨position, run ++ text⟩ : Cursor).next =
      (⟨position + byteLength run, text⟩ : Cursor).next := by
  induction run generalizing position with
  | nil => rfl
  | cons first tail induction =>
      rcases List.forall_mem_cons.mp blank with ⟨firstBlank, tailBlank⟩
      rw [List.cons_append, next_blank firstBlank, induction _ tailBlank,
        byteLength_cons, Nat.add_assoc]

/-- A step is repeated wherever the text that it goes over is followed by the same
character. -/
theorem next_of_head?_eq {cursor moved : Cursor}
    {answer : Except LexError Lexeme} {passed rest : List Char}
    (step : cursor.next = (answer, moved)) (early : isKnownAtEnd answer = false)
    (passes : cursor.Passes passed moved) (same : rest.head? = moved.unread.head?) :
    (⟨cursor.position, passed ++ rest⟩ : Cursor).next =
      (answer, ⟨moved.position, rest⟩) := by
  injection step with outcome state
  subst outcome state
  let scan := Scan.ofText cursor.skipBlanks.unread
  have goesOver : passed = cursor.unread.takeWhile isBlank ++ scan.consumed :=
    List.append_cancel_right (passes.unread.symm.trans cursor.passes_next.unread)
  have blank : ∀ character ∈ cursor.unread.takeWhile isBlank,
      isBlank character = true := fun _ member => List.mem_takeWhile_imp member
  -- Both scans start at the same character, also where nothing is gone over.
  have sameStart : (scan.consumed ++ rest).head? = cursor.skipBlanks.unread.head? := by
    rw [← Scan.consumed_append_rest cursor.skipBlanks.unread, List.head?_append,
      List.head?_append, same]
  have inked : ∀ next ∈ (scan.consumed ++ rest).head?, isBlank next = false := by
    rw [sameStart]
    exact outside_dropWhile isBlank cursor.unread
  rw [goesOver, List.append_assoc, next_blanks _ blank,
    next_step _ inked (cursor.step_next.of_head?_eq early same)]
  rfl

end Cursor

/-! ## Bytes of a text -/

/-- The character of a text behind a byte offset, or the end of the text. There is
no answer out of range and inside a character. -/
def following? (text : String) (offset : Nat) : Option (Option Char) :=
  (slice? text offset text.utf8ByteSize).map fun behind => behind.toList.head?

theorem following?_eq_some_iff {text : String} {offset : Nat} {next : Option Char} :
    following? text offset = some next ↔
      ∃ front behind : String, front ++ behind = text ∧
        offset = front.utf8ByteSize ∧ behind.toList.head? = next := by
  rw [following?, Option.map_eq_some_iff]
  constructor
  · rintro ⟨behind, found, head⟩
    rcases slice?_eq_some_iff.mp found with ⟨front, rest, whole, start, finish⟩
    have nothing : rest.utf8ByteSize = 0 := by
      have size := congrArg String.utf8ByteSize whole
      simp only [String.utf8ByteSize_append] at size finish
      omega
    rw [String.utf8ByteSize_eq_zero_iff.mp nothing, String.append_empty] at whole
    exact ⟨front, behind, whole, start, head⟩
  · rintro ⟨front, behind, rfl, start, head⟩
    exact ⟨behind, slice?_eq_some_iff.mpr ⟨front, "", by simp, start, rfl⟩, head⟩

theorem extract_eq_toByteArray {text front part behind : String} {start finish : Nat}
    (whole : front ++ (part ++ behind) = text) (atStart : start = front.utf8ByteSize)
    (atFinish : finish = (front ++ part).utf8ByteSize) :
    text.toByteArray.extract start finish = part.toByteArray := by
  rw [← whole, ← String.append_assoc, String.toByteArray_append, atStart, atFinish,
    ← String.size_toByteArray, ← String.size_toByteArray,
    ByteArray.extract_append_size_left, String.toByteArray_append,
    ByteArray.size_append]
  exact ByteArray.extract_append_eq_right rfl rfl

/-- Of two beginnings of a text the longer one goes on from the shorter one. -/
theorem exists_between {front behind longer rest : List Char}
    (whole : front ++ behind = longer ++ rest)
    (shorter : byteLength front ≤ byteLength longer) :
    ∃ part, longer = front ++ part ∧ behind = part ++ rest := by
  rcases List.append_eq_append_iff.mp whole with
    ⟨part, goesOn, between⟩ | ⟨part, goesOn, between⟩
  · exact ⟨part, goesOn, between⟩
  · have nothing : part = [] := by
      apply byteLength_eq_zero_iff.mp
      rw [goesOn, byteLength_append] at shorter
      omega
    subst nothing
    exact ⟨[], by simpa using goesOn.symm, by simpa using between.symm⟩

/-! ## Two cursors -/

namespace Cursor

theorem StandsIn.following?_position {cursor : Cursor} {source : String}
    (stands : cursor.StandsIn source) :
    following? source cursor.position = some cursor.unread.head? := by
  rw [following?, stands.slice?_position, Option.map_some, remaining,
    String.toList_ofList]

/-- A cursor may go on to every boundary between characters that is not behind
it. -/
theorem StandsIn.exists_passes {cursor : Cursor} {source : String} {offset : Nat}
    {next : Option Char} (stands : cursor.StandsIn source)
    (found : following? source offset = some next) (onward : cursor.position ≤ offset) :
    ∃ passed rest, cursor.Passes passed ⟨offset, rest⟩ ∧ rest.head? = next := by
  rcases stands with ⟨read, whole, counted⟩
  rcases following?_eq_some_iff.mp found with ⟨longer, behind, sameWhole, finish, head⟩
  rw [counted, finish, ← byteLength_toList, ← byteLength_toList] at onward
  have characters := congrArg String.toList (whole.trans sameWhole.symm)
  rw [String.toList_append, String.toList_append] at characters
  rcases exists_between characters onward with ⟨part, goesOn, unread⟩
  rw [remaining, String.toList_ofList] at unread
  refine ⟨part, behind.toList, ⟨unread, ?_⟩, head⟩
  rw [finish, counted, ← byteLength_toList, goesOn, byteLength_append,
    byteLength_toList]

/-- The bytes from a position to a later one are those of the text between them. -/
theorem StandsIn.extract_passed {cursor moved : Cursor} {source : String}
    {passed : List Char} (stands : cursor.StandsIn source)
    (passes : cursor.Passes passed moved) :
    source.toByteArray.extract cursor.position moved.position =
      (String.ofList passed).toByteArray := by
  rcases stands with ⟨read, rfl, counted⟩
  rw [passes.remaining]
  apply extract_eq_toByteArray rfl counted
  rw [passes.position_eq, counted, String.utf8ByteSize_append]

/-- One character of lookahead is enough. A cursor that stands at the same position
in another text repeats the answer and stops at the same place, if its text has the
same bytes up to there and the same character behind them, or ends there too. What
is in front of the cursors and farther on in the texts makes no difference. -/
theorem next_eq_of_lookahead {source other : String} {cursor twin moved : Cursor}
    {answer : Except LexError Lexeme}
    (stands : cursor.StandsIn source) (twinStands : twin.StandsIn other)
    (together : twin.position = cursor.position)
    (step : cursor.next = (answer, moved)) (early : isKnownAtEnd answer = false)
    (sameBytes : other.toByteArray.extract cursor.position moved.position =
      source.toByteArray.extract cursor.position moved.position)
    (sameFollowing : following? other moved.position =
      following? source moved.position) :
    twin.next.1 = answer ∧ twin.next.2.position = moved.position := by
  rcases (⟨_, step ▸ cursor.passes_next⟩ : ∃ passed, cursor.Passes passed moved) with
    ⟨passed, passes⟩
  have forward : twin.position ≤ moved.position := by
    rw [together, passes.position]
    exact Nat.le_add_right _ _
  rw [(stands.of_passes passes).following?_position] at sameFollowing
  rcases twinStands.exists_passes sameFollowing forward with
    ⟨twinPassed, rest, twinPasses, head⟩
  -- The bytes up to the stop tell the text that is gone over.
  have same : twinPassed = passed := by
    have twinBytes := twinStands.extract_passed twinPasses
    rw [together, sameBytes, stands.extract_passed passes] at twinBytes
    exact (String.ofList_inj.mp (String.toByteArray_inj.mp twinBytes)).symm
  have twinUnread : twin.unread = passed ++ rest := same ▸ twinPasses.unread
  have answered := next_of_head?_eq step early passes head
  rw [← twinUnread, ← together] at answered
  exact ⟨congrArg Prod.fst answered, congrArg (fun result => result.2.position) answered⟩

/-- The comparison is told from the letter behind it, whatever comes next. -/
theorem next_eq_of_lookahead_less :
    let cursor : Cursor := ⟨2, " <x+1".toList⟩
    let twin : Cursor := ⟨2, " <x\"".toList⟩
    cursor.StandsIn "12 <x+1" ∧ twin.StandsIn "é <x\"" ∧
      twin.next.1 = .ok (.symbol .less) ∧ twin.next.2.position = 4 := by
  intro cursor twin
  have stands : cursor.StandsIn "12 <x+1" := ⟨"12", by decide, by decide⟩
  have twinStands : twin.StandsIn "é <x\"" := ⟨"é", by decide, by decide⟩
  have step : cursor.next = (.ok (.symbol .less), ⟨4, "x+1".toList⟩) := rfl
  have sameBytes : "é <x\"".toByteArray.extract 2 4 =
      "12 <x+1".toByteArray.extract 2 4 := by
    decide +kernel
  have following : following? "12 <x+1" 4 = some (some 'x') :=
    following?_eq_some_iff.mpr ⟨"12 <", "x+1", by decide, by decide, by decide⟩
  have twinFollowing : following? "é <x\"" 4 = some (some 'x') :=
    following?_eq_some_iff.mpr ⟨"é <", "x\"", by decide, by decide, by decide⟩
  have repeated := next_eq_of_lookahead stands twinStands rfl step rfl sameBytes
    (twinFollowing.trans following.symm)
  exact ⟨stands, twinStands, repeated⟩

end Cursor

end LineBasic
