import LineBasic.Proofs.Editing.Lookup

/-! The place of an inserted line, and what a removal takes out.

A line goes in front of the first line whose number is not smaller, or in its
place if that number is its own. All other lines stay as they are, whatever the
order of the program and however often a number occurs in it. -/

namespace LineBasic.Program

/-- The first line whose number is at least the given one. -/
def atLeast? (program : Program) (number : LineNumber) : Option Line :=
  program.lines.find? (number ≤ ·.number)

/-- Whether a line that is inserted with the number takes the place of another. -/
def replaces (program : Program) (number : LineNumber) : Bool :=
  (program.atLeast? number).any (·.number = number)

/-! ## The place of a line -/

section

variable {line first : Line} {before behind : List Line}

theorem place_behind (smaller : first.number < line.number) (rest : List Line) :
    place line (first :: rest) = first :: place line rest :=
  if_pos smaller

theorem place_over (same : first.number = line.number) (rest : List Line) :
    place line (first :: rest) = line :: rest := by
  rw [place, if_neg (same ▸ UInt32.lt_irrefl _), if_pos same]

theorem place_before (larger : ∀ next ∈ behind.head?, line.number < next.number) :
    place line behind = line :: behind := by
  cases behind with
  | nil => rfl
  | cons next rest =>
      have above := larger next rfl
      rw [place, if_neg (UInt32.lt_asymm above), if_neg (UInt32.ne_of_lt above).symm]

/-- Lines with smaller numbers stay in front of the inserted line. -/
theorem place_append (smaller : ∀ earlier ∈ before, earlier.number < line.number)
    (behind : List Line) :
    place line (before ++ behind) = before ++ place line behind := by
  induction before with
  | nil => rfl
  | cons first rest induction =>
      rcases List.forall_mem_cons.mp smaller with ⟨firstSmaller, restSmaller⟩
      rw [List.cons_append, place_behind firstSmaller, induction restSmaller]
      rfl

end

section

variable {program : Program} {line : Line} {number : LineNumber}

/-- A program is cut in two in front of the first line whose number is not
smaller. -/
theorem exists_slot (program : Program) (number : LineNumber) :
    ∃ before behind, program = ⟨before ++ behind⟩ ∧
      (∀ earlier ∈ before, earlier.number < number) ∧
      behind.head? = program.atLeast? number := by
  rcases program with ⟨lines⟩
  cases found : atLeast? ⟨lines⟩ number with
  | none =>
      refine ⟨lines, [], by rw [List.append_nil], ?_, rfl⟩
      intro earlier member
      simpa using List.find?_eq_none.mp found earlier member
  | some next =>
      rcases List.find?_eq_some_iff_append.mp found with
        ⟨-, before, behind, rfl, smaller⟩
      exact ⟨before, next :: behind, rfl, by simpa using smaller, rfl⟩

theorem le_of_atLeast? {next : Line} (found : program.atLeast? number = some next) :
    number ≤ next.number := by
  simpa using List.find?_some found

theorem exists_insert_over (replaces : program.replaces line.number = true) :
    ∃ before old behind, program = ⟨before ++ old :: behind⟩ ∧
      (∀ earlier ∈ before, earlier.number < line.number) ∧
      old.number = line.number ∧
      program.insert line = ⟨before ++ line :: behind⟩ := by
  rcases program.exists_slot line.number with ⟨before, behind, whole, smaller, head⟩
  rw [Program.replaces, ← head] at replaces
  cases behind with
  | nil => cases replaces
  | cons old behind =>
      have same : old.number = line.number := of_decide_eq_true replaces
      refine ⟨before, old, behind, whole, smaller, same, ?_⟩
      rw [whole, insert, place_append smaller, place_over same]

theorem exists_insert_between (replaces : program.replaces line.number = false) :
    ∃ before behind, program = ⟨before ++ behind⟩ ∧
      (∀ earlier ∈ before, earlier.number < line.number) ∧
      (∀ next ∈ behind.head?, line.number < next.number) ∧
      program.insert line = ⟨before ++ line :: behind⟩ := by
  rcases program.exists_slot line.number with ⟨before, behind, whole, smaller, head⟩
  have larger : ∀ next ∈ behind.head?, line.number < next.number := by
    intro next member
    rw [head] at member
    rw [Program.replaces, member] at replaces
    have differs : next.number ≠ line.number := of_decide_eq_false replaces
    exact UInt32.lt_of_le_of_ne (le_of_atLeast? member) differs.symm
  refine ⟨before, behind, whole, smaller, larger, ?_⟩
  rw [whole, insert, place_append smaller, place_before larger]

/-! ## The first line of a number -/

theorem remove_append_cons {before behind : List Line}
    (others : ∀ earlier ∈ before, earlier.number ≠ number)
    (same : line.number = number) :
    remove ⟨before ++ line :: behind⟩ number =
      (some line, ⟨before ++ behind⟩) := by
  have missed : ∀ earlier ∈ before, ¬decide (earlier.number = number) = true := by
    simpa using others
  have found : get? ⟨before ++ line :: behind⟩ number = some line :=
    List.find?_eq_some_iff_append.mpr
      ⟨decide_eq_true same, before, behind, rfl, by simpa using others⟩
  rw [remove_eq, found, List.eraseP_append_right _ missed,
    List.eraseP_cons_of_pos (by simpa using same)]

/-- Lines with smaller numbers do not keep a line from being taken out. -/
theorem remove_of_smaller {before behind : List Line}
    (smaller : ∀ earlier ∈ before, earlier.number < line.number) :
    remove ⟨before ++ line :: behind⟩ line.number =
      (some line, ⟨before ++ behind⟩) :=
  remove_append_cons
    (fun earlier member => UInt32.ne_of_lt (smaller earlier member)) rfl

theorem exists_remove (found : program.get? number = some line) :
    ∃ before behind, program = ⟨before ++ line :: behind⟩ ∧
      (∀ earlier ∈ before, earlier.number ≠ number) ∧
      line.number = number ∧
      program.remove number = (some line, ⟨before ++ behind⟩) := by
  rcases program with ⟨lines⟩
  rcases List.find?_eq_some_iff_append.mp found with
    ⟨-, before, behind, rfl, missed⟩
  have others : ∀ earlier ∈ before, earlier.number ≠ number := by
    simpa using missed
  have same := number_of_get? found
  exact ⟨before, behind, rfl, others, same, remove_append_cons others same⟩

end

/-- What insertion, search and removal do to one another in any program. An
inserted line is found, and so is what was found before under the other numbers.
Either the line replaces the first one of its number that it meets, or all lines
stay and it comes in between; removing it again takes out this line and no other.
A removal gives the line that is found and leaves all the others, in their order. -/
theorem store_laws (program : Program) (line : Line) :
    let inserted := program.insert line
    (∀ number, inserted.get? number =
      if line.number = number then some line else program.get? number) ∧
    (program.replaces line.number = true → ∃ before old behind,
      program = ⟨before ++ old :: behind⟩ ∧
      (∀ earlier ∈ before, earlier.number < line.number) ∧
      old.number = line.number ∧
      inserted = ⟨before ++ line :: behind⟩ ∧ inserted.size = program.size ∧
      program.remove line.number = (some old, ⟨before ++ behind⟩) ∧
      inserted.remove line.number = (some line, ⟨before ++ behind⟩)) ∧
    (program.replaces line.number = false → ∃ before behind,
      program = ⟨before ++ behind⟩ ∧
      (∀ earlier ∈ before, earlier.number < line.number) ∧
      (∀ next ∈ behind.head?, line.number < next.number) ∧
      inserted = ⟨before ++ line :: behind⟩ ∧ inserted.size = program.size + 1 ∧
      inserted.remove line.number = (some line, program)) ∧
    ∀ number,
      (program.remove number).1 = program.get? number ∧
      (program.get? number = none → (program.remove number).2 = program) ∧
      (∀ found, program.get? number = some found → ∃ before behind,
        program = ⟨before ++ found :: behind⟩ ∧
        (∀ earlier ∈ before, earlier.number ≠ number) ∧
        found.number = number ∧
        (program.remove number).2 = ⟨before ++ behind⟩) ∧
      ∀ other, other ≠ number →
        (program.remove number).2.get? other = program.get? other := by
  intro inserted
  refine ⟨program.get?_insert line, ?_, ?_, ?_⟩
  · intro replaces
    rcases exists_insert_over replaces with
      ⟨before, old, behind, rfl, smaller, same, placed⟩
    have sameSize : inserted.size = size ⟨before ++ old :: behind⟩ := by
      simp [inserted, placed, size]
    have oldRemoved : remove ⟨before ++ old :: behind⟩ line.number =
        (some old, ⟨before ++ behind⟩) := by
      rw [← same] at smaller ⊢
      exact remove_of_smaller smaller
    have removed : inserted.remove line.number =
        (some line, ⟨before ++ behind⟩) := by
      simp only [inserted, placed]
      exact remove_of_smaller smaller
    exact ⟨before, old, behind, rfl, smaller, same, placed, sameSize, oldRemoved,
      removed⟩
  · intro replaces
    rcases exists_insert_between replaces with
      ⟨before, behind, rfl, smaller, larger, placed⟩
    have grown : inserted.size = size ⟨before ++ behind⟩ + 1 := by
      simp [inserted, placed, size, Nat.add_assoc]
    have removed : inserted.remove line.number =
        (some line, ⟨before ++ behind⟩) := by
      simp only [inserted, placed]
      exact remove_of_smaller smaller
    exact ⟨before, behind, rfl, smaller, larger, placed, grown, removed⟩
  · intro number
    refine ⟨program.remove_fst number, remove_eq_self, ?_,
      fun other => get?_remove_of_ne⟩
    intro found equal
    rcases exists_remove equal with ⟨before, behind, rfl, others, same, removed⟩
    exact ⟨before, behind, rfl, others, same, congrArg Prod.snd removed⟩

/-- The second line of the number stays behind the inserted one, where it is not
found any more. -/
example :
    let program : Program := ⟨[⟨30, .goto 20⟩, ⟨20, .input "X"⟩]⟩
    let inserted := program.insert ⟨20, .remark ""⟩
    inserted.lines = ⟨20, .remark ""⟩ :: program.lines ∧
      (inserted.remove 20).2 = program := by
  decide

end LineBasic.Program
