import LineBasic.Proofs.Editing.LineIndex
import Mathlib.Data.List.Basic

/-! Jumps to nowhere, and what an edit does to them.

A jump dangles if no line has the number of its target. An edit adds one number or
takes one away: a line that is inserted or appended brings its own, and a removed
line takes its number along unless another line has it too. All jumps to other
numbers stay what they were. -/

namespace LineBasic.Program

section

variable {program : Program} {line : Line} {number removed : LineNumber}
  {jump : LineNumber × LineNumber}

/-! ## The numbers after an edit -/

theorem mem_numbers_iff :
    number ∈ program.numbers ↔ (program.get? number).isSome = true := by
  simp [numbers, get?]

theorem mem_numbers_insert_iff :
    number ∈ (program.insert line).numbers ↔
      number = line.number ∨ number ∈ program.numbers := by
  rw [mem_numbers_iff, get?_insert, mem_numbers_iff]
  by_cases same : line.number = number
  · simp [same]
  · simp [same, Ne.symm same]

theorem mem_numbers_push_iff :
    number ∈ (program.push line).numbers ↔
      number = line.number ∨ number ∈ program.numbers := by
  simp [numbers, push, or_comm]

theorem numbers_remove (program : Program) (removed : LineNumber) :
    (program.remove removed).2.numbers = program.numbers.erase removed := by
  rw [remove_eq, List.erase_eq_eraseP', numbers, numbers, List.eraseP_map]
  rfl

/-- A number is gone if the line that is removed was the only one that had it. -/
theorem notMem_numbers_remove_iff :
    number ∉ (program.remove removed).2.numbers ↔
      number ∉ program.numbers ∨
        number = removed ∧ program.numbers.count removed = 1 := by
  rw [numbers_remove]
  by_cases same : number = removed
  · subst same
    rw [← List.count_eq_zero, List.count_erase_self, ← List.count_eq_zero]
    simp only [true_and]
    omega
  · rw [List.mem_erase_of_ne same]
    simp [same]

/-! ## Jumps to nowhere -/

theorem danglingJumps_eq (program : Program) :
    program.danglingJumps =
      program.jumps.filter fun jump => decide (jump.2 ∉ program.numbers) := by
  simp only [danglingJumps, contains_lineIndex, decide_not]

theorem mem_danglingJumps_iff :
    jump ∈ program.danglingJumps ↔
      jump ∈ program.jumps ∧ jump.2 ∉ program.numbers := by
  rw [danglingJumps_eq, List.mem_filter, decide_eq_true_eq]

/-- Line by line: what a GOTO or an IF leads to, where no line has that number. -/
theorem danglingJumps_eq_filterMap (missing : LineNumber → Prop)
    [DecidablePred missing]
    (told : ∀ target, target ∉ program.numbers ↔ missing target) :
    program.danglingJumps = program.lines.filterMap fun jumping =>
      match jumping.statement with
      | .goto target | .branch _ target =>
          if missing target then some (jumping.number, target) else none
      | .remark _ | .print _ | .input _ | .assign _ _ => none := by
  rw [danglingJumps_eq, jumps, List.filter_filterMap]
  apply List.filterMap_congr
  intro jumping member
  cases jumping.statement with
  | goto target | branch condition target =>
      simp [Statement.jumpTarget?, Option.filter, told]
  | _ => rfl

theorem mem_danglingJumps_of_line {jumping : Line} {condition : Expression}
    {target : LineNumber} (member : jumping ∈ program.lines)
    (leads : jumping.statement = .goto target ∨
      jumping.statement = .branch condition target) :
    (jumping.number, target) ∈ program.danglingJumps ↔
      target ∉ program.numbers := by
  have jumps : (jumping.number, target) ∈ program.jumps := by
    apply List.mem_filterMap.mpr
    refine ⟨jumping, member, ?_⟩
    rcases leads with leads | leads <;> rw [leads] <;> rfl
  rw [mem_danglingJumps_iff, and_iff_right jumps]

/-- Where an edit brings one number and takes none, the jumps to it have a target
now, and all other jumps are what they were. -/
theorem danglingJumps_of_brought {edited : Program} {brought : LineNumber}
    (numbers : ∀ number, number ∈ edited.numbers ↔
      number = brought ∨ number ∈ program.numbers) :
    (edited.danglingJumps = edited.lines.filterMap fun jumping =>
      match jumping.statement with
      | .goto target | .branch _ target =>
          if target ≠ brought ∧ target ∉ program.numbers then
            some (jumping.number, target)
          else none
      | .remark _ | .print _ | .input _ | .assign _ _ => none) ∧
    (∀ jumping ∈ edited.lines, jumping ∈ program.lines → ∀ condition target,
      jumping.statement = .goto target ∨
        jumping.statement = .branch condition target →
      ((jumping.number, target) ∈ edited.danglingJumps ↔
        (jumping.number, target) ∈ program.danglingJumps ∧ target ≠ brought)) ∧
    ∀ number, (number, brought) ∉ edited.danglingJumps := by
  have absent : ∀ target, target ∉ edited.numbers ↔
      target ≠ brought ∧ target ∉ program.numbers := by
    intro target
    rw [numbers, not_or]
  refine ⟨danglingJumps_eq_filterMap _ absent, ?_, ?_⟩
  · intro jumping after before condition target leads
    rw [mem_danglingJumps_of_line after leads, mem_danglingJumps_of_line before leads,
      absent, and_comm]
  · intro number dangling
    have missing := (mem_danglingJumps_iff.mp dangling).2
    exact missing ((numbers brought).mpr (.inl rfl))

theorem mem_lines_of_remove {kept : Line}
    (after : kept ∈ (program.remove removed).2.lines) : kept ∈ program.lines := by
  rw [remove_eq] at after
  exact List.mem_of_mem_eraseP after

theorem mem_danglingJumps_remove {jumping : Line} {condition : Expression}
    {target : LineNumber} (after : jumping ∈ (program.remove removed).2.lines)
    (leads : jumping.statement = .goto target ∨
      jumping.statement = .branch condition target) :
    (jumping.number, target) ∈ (program.remove removed).2.danglingJumps ↔
      (jumping.number, target) ∈ program.danglingJumps ∨
        target = removed ∧ program.numbers.count removed = 1 := by
  have before := mem_lines_of_remove after
  rw [mem_danglingJumps_of_line after leads, mem_danglingJumps_of_line before leads,
    notMem_numbers_remove_iff]

end

/-- What becomes of the jumps to nowhere when a line is inserted or appended, and
when one is removed. They are the GOTO and IF lines of the edited program, in its
order, that lead to no line. A jump that stays dangles after an insertion exactly if
it did before and does not lead to the number of the new line; after a removal it
dangles newly exactly if the removed line was its only target. -/
theorem danglingJumps_edited (program : Program) (line : Line)
    (removed : LineNumber) :
    (∀ edited ∈ [program.insert line, program.push line],
      (edited.danglingJumps = edited.lines.filterMap fun jumping =>
        match jumping.statement with
        | .goto target | .branch _ target =>
            if target ≠ line.number ∧ target ∉ program.numbers then
              some (jumping.number, target)
            else none
        | .remark _ | .print _ | .input _ | .assign _ _ => none) ∧
      (∀ jumping ∈ edited.lines, jumping ∈ program.lines → ∀ condition target,
        jumping.statement = .goto target ∨
          jumping.statement = .branch condition target →
        ((jumping.number, target) ∈ edited.danglingJumps ↔
          (jumping.number, target) ∈ program.danglingJumps ∧
            target ≠ line.number)) ∧
      ∀ number, (number, line.number) ∉ edited.danglingJumps) ∧
    let edited := (program.remove removed).2
    (edited.danglingJumps = edited.lines.filterMap fun jumping =>
      match jumping.statement with
      | .goto target | .branch _ target =>
          if target ∉ program.numbers ∨
              target = removed ∧ program.numbers.count removed = 1 then
            some (jumping.number, target)
          else none
      | .remark _ | .print _ | .input _ | .assign _ _ => none) ∧
    ∀ jumping ∈ edited.lines, ∀ condition target,
      jumping.statement = .goto target ∨
        jumping.statement = .branch condition target →
      ((jumping.number, target) ∈ program.danglingJumps →
        (jumping.number, target) ∈ edited.danglingJumps) ∧
      ((jumping.number, target) ∉ program.danglingJumps →
        ((jumping.number, target) ∈ edited.danglingJumps ↔
          target = removed ∧ program.numbers.count removed = 1)) := by
  constructor
  · rw [List.forall_mem_cons, List.forall_mem_singleton]
    exact ⟨danglingJumps_of_brought fun number => mem_numbers_insert_iff,
      danglingJumps_of_brought fun number => mem_numbers_push_iff⟩
  · intro edited
    refine ⟨danglingJumps_eq_filterMap _ fun target => notMem_numbers_remove_iff, ?_⟩
    intro jumping after condition target leads
    rw [mem_danglingJumps_remove after leads]
    exact ⟨Or.inl, fun before => or_iff_right before⟩

/-- The new line leads to itself and is led to, so that one old jump finds a target.
Of the two lines with the number 20 one may go. The line 30 is the only one with its
number, and a jump is left behind. -/
theorem danglingJumps_edited_with_duplicates :
    let program : Program :=
      ⟨[⟨30, .goto 40⟩, ⟨20, .goto 30⟩, ⟨20, .branch (.var "X") 5⟩]⟩
    program.danglingJumps = [(30, 40), (20, 5)] ∧
      (program.insert ⟨40, .goto 40⟩).danglingJumps = [(20, 5)] ∧
      (program.push ⟨40, .goto 40⟩).danglingJumps = [(20, 5)] ∧
      (30, 40) ∉ (program.insert ⟨40, .goto 40⟩).danglingJumps ∧
      (program.remove 20).2.danglingJumps = [(30, 40), (20, 5)] ∧
      (program.remove 30).2.danglingJumps = [(20, 30), (20, 5)] ∧
      (20, 30) ∈ (program.remove 30).2.danglingJumps := by
  intro program
  have edits := danglingJumps_edited program ⟨40, .goto 40⟩
  have inserted := (edits 20).1 (program.insert ⟨40, .goto 40⟩) List.mem_cons_self
  have pushed := (edits 20).1 (program.push ⟨40, .goto 40⟩)
    (List.mem_cons_of_mem _ List.mem_cons_self)
  have without20 := (edits 20).2
  have without30 := (edits 30).2
  refine ⟨by decide, inserted.1.trans (by decide), pushed.1.trans (by decide), ?_,
    without20.1.trans (by decide), without30.1.trans (by decide), ?_⟩
  · intro dangling
    have led := inserted.2.1 ⟨30, .goto 40⟩ (by decide) (by decide) (.var "X") 40
      (.inl rfl)
    exact (led.mp dangling).2 rfl
  · have led := without30.2 ⟨20, .goto 30⟩ (by decide) (.var "X") 30 (.inl rfl)
    exact (led.2 (by decide)).mpr (by decide)

end LineBasic.Program
