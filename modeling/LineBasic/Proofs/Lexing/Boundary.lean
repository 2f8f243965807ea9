import LineBasic.Proofs.Lexing.Refinement

/-! Sessions: calls, and new starts over what remains.

A session is told twice, once by a cursor over the unread characters and once by a
scanner that cuts everything out of its text. The cursor stands between two
characters at all times, so no cut of the scanner ever fails. -/

namespace LineBasic

/-- A text, and a cursor over it. -/
structure Session where
  source : String
  cursor : Cursor

namespace Session

/-- What may happen in a session: a call, or a new start over what remains. -/
inductive Event where
  | call (call : Call)
  | restart

def start (source : String) : Session := ⟨source, Cursor.ofText source⟩

def handle (session : Session) : Event → Session
  | .call call => { session with cursor := (session.cursor.answer call).2 }
  | .restart => ⟨session.cursor.remaining, session.cursor.rebase⟩

/-- The session after events that happen one after the other. -/
def after (session : Session) (events : List Event) : Session :=
  events.foldl handle session

/-- The scanner of the text at the position of the cursor. -/
def scanner (session : Session) : Scanner := session.cursor.scanner session.source

end Session

namespace Scanner

/-- The scanner after an event, unless a cut fails. -/
def handle? (scanner : Scanner) : Session.Event → Option Scanner
  | .call call => (scanner.answer? call).map Prod.snd
  | .restart => scanner.remaining?.map ofText

/-- The scanner after events that happen one after the other. -/
def after? (scanner : Scanner) (events : List Session.Event) : Option Scanner :=
  events.foldlM handle? scanner

end Scanner

namespace Session

theorem standsIn_handle {session : Session}
    (stands : session.cursor.StandsIn session.source) (event : Event) :
    (session.handle event).cursor.StandsIn (session.handle event).source := by
  cases event with
  | call call => exact stands.answer call
  | restart =>
      have fresh := Cursor.standsIn_ofText session.cursor.remaining
      rwa [Cursor.ofText_remaining] at fresh

theorem standsIn_after (session : Session)
    (stands : session.cursor.StandsIn session.source) (events : List Event) :
    (session.after events).cursor.StandsIn (session.after events).source := by
  induction events generalizing session with
  | nil => exact stands
  | cons event later induction => exact induction _ (standsIn_handle stands event)

theorem scanner_handle? {session : Session}
    (stands : session.cursor.StandsIn session.source) (event : Event) :
    session.scanner.handle? event = some (session.handle event).scanner := by
  cases event with
  | call call =>
      rw [Scanner.handle?, scanner, stands.answer?]
      rfl
  | restart =>
      rw [Scanner.handle?, scanner, Cursor.standsIn_iff.mp stands]
      rfl

theorem scanner_after? (session : Session)
    (stands : session.cursor.StandsIn session.source) (events : List Event) :
    session.scanner.after? events = some (session.after events).scanner := by
  induction events generalizing session with
  | nil => rfl
  | cons event later induction =>
      rw [Scanner.after?, List.foldlM_cons, scanner_handle? stands]
      exact induction _ (standsIn_handle stands event)

/-- Whatever happens in a session, the position is a boundary between characters
at which the text falls into what has been read and what remains. A call never
goes back, and where it goes over some characters, every part of them can be cut
out of the text by its offsets. So the scanner comes to the same position, and
cuts out all that the call needs. -/
theorem cursor_on_boundary (source : String) (events : List Event) :
    let session := (start source).after events
    let text := session.source
    let cursor := session.cursor
    (Scanner.ofText source).after? events = some ⟨text, cursor.position⟩ ∧
    (∃ read : String, cursor.position = read.utf8ByteSize ∧
      read ++ cursor.remaining = text ∧
      slice? text 0 cursor.position = some read ∧
      slice? text cursor.position text.utf8ByteSize = some cursor.remaining) ∧
    ∀ call, let moved := (cursor.answer call).2
      cursor.position ≤ moved.position ∧ moved.position ≤ text.utf8ByteSize ∧
      Scanner.answer? ⟨text, cursor.position⟩ call =
        some ((cursor.answer call).1, ⟨text, moved.position⟩) ∧
      ∃ passed : String, cursor.remaining = passed ++ moved.remaining ∧
        moved.position = cursor.position + passed.utf8ByteSize ∧
        ∀ front middle behind : String, front ++ middle ++ behind = passed →
          let start := cursor.position + front.utf8ByteSize
          slice? text start (start + middle.utf8ByteSize) = some middle ∧
            slice? text start text.utf8ByteSize =
              some (middle ++ behind ++ moved.remaining) := by
  intro session text cursor
  have fresh := Cursor.standsIn_ofText source
  have stands : cursor.StandsIn text := (start source).standsIn_after fresh events
  refine ⟨(start source).scanner_after? fresh events, ?_, ?_⟩
  · have remains := stands.slice?_position
    rcases stands with ⟨read, whole, counted⟩
    have front : slice? text 0 cursor.position = some read :=
      slice?_eq_some_iff.mpr
        ⟨"", cursor.remaining, by simpa using whole, rfl, by simpa using counted⟩
    exact ⟨read, counted, whole, front, remains⟩
  · intro call moved
    rcases cursor.passes_answer call with ⟨passed, passes⟩
    have position : moved.position =
        cursor.position + (String.ofList passed).utf8ByteSize := passes.position_eq
    have length : moved.length = text.utf8ByteSize := (stands.answer call).length_eq
    rw [Cursor.length] at length
    refine ⟨by omega, by omega, stands.answer? call, String.ofList passed,
      passes.remaining, position, ?_⟩
    intro front middle behind whole
    apply stands.slice?_passed
    rw [whole, passes.remaining]

end Session

end LineBasic
