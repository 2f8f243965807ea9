import LineBasic.Proofs.Editing.DanglingJumps
import Mathlib.Data.List.Dedup

/-! The index of a program against its searches.

A search goes through the lines from the start, and the index is made in one pass
over them. Both lead to the first line of a number, whatever the order of the
program and however often the number occurs, so that each can be told from the
other. -/

namespace LineBasic.Program

section

variable {program : Program} {number : LineNumber} {position : Nat}

/-! ## Entries -/

theorem mem_lineIndex_iff : number ∈ program.lineIndex ↔ number ∈ program.numbers := by
  rw [← Std.TreeMap.contains_iff_mem, contains_lineIndex, decide_eq_true_eq]

/-- The entry for a number is the first position at which the number stands. -/
theorem getElem?_lineIndex_eq_some_iff :
    program.lineIndex[number]? = some position ↔
      program.numbers[position]? = some number ∧
        ∀ earlier < position, program.numbers[earlier]? ≠ some number := by
  have byNumber : program.numbers.findIdx? (· = number) =
      program.lines.findIdx? (·.number = number) := List.findIdx?_map
  rw [getElem?_lineIndex, ← byNumber, List.findIdx?_eq_some_iff_getElem,
    List.getElem?_eq_some_iff]
  constructor
  · rintro ⟨inRange, same, missed⟩
    refine ⟨⟨inRange, of_decide_eq_true same⟩, ?_⟩
    intro earlier before found
    rcases List.getElem?_eq_some_iff.mp found with ⟨_, equal⟩
    exact missed earlier before (decide_eq_true equal)
  · rintro ⟨⟨inRange, same⟩, missed⟩
    refine ⟨inRange, decide_eq_true same, ?_⟩
    intro earlier before found
    exact missed earlier before
      (List.getElem?_eq_some_iff.mpr ⟨_, of_decide_eq_true found⟩)

theorem keys_lineIndex_perm (program : Program) :
    program.lineIndex.keys.Perm program.numbers.dedup := by
  apply (List.perm_ext_iff_of_nodup Std.TreeMap.nodup_keys
    program.numbers.nodup_dedup).mpr
  intro number
  rw [Std.TreeMap.mem_keys, List.mem_dedup, mem_lineIndex_iff]

/-! ## Searches by the index -/

theorem get?_eq_bind_lineIndex (program : Program) (number : LineNumber) :
    program.get? number =
      program.lineIndex[number]?.bind fun position => program.lines[position]? := by
  rw [getElem?_lineIndex]
  exact List.find?_eq_bind_findIdx?_getElem?

theorem remove_eq_eraseIdx (found : program.lineIndex[number]? = some position) :
    program.remove number =
      (program.lines[position]?, ⟨program.lines.eraseIdx position⟩) := by
  rw [remove, ← getElem?_lineIndex, found]

theorem notMem_numbers_iff :
    number ∉ program.numbers ↔ program.get? number = none := by
  rw [mem_numbers_iff, Option.not_isSome_iff_eq_none]

end

/-- The index has one entry for each number that is found and no others, and the
entry is the first position of the number. The line there is the one that a search
gives and that a removal takes out. The jumps to nowhere, which are told by the
index, are in their order those whose target is not found. -/
theorem lineIndex_agrees_with_searches (program : Program) :
    (∀ number,
      (number ∈ program.lineIndex ↔ (program.get? number).isSome = true) ∧
      ∀ position, program.lineIndex[number]? = some position → ∃ line,
        program.lines[position]? = some line ∧ line.number = number ∧
        (∀ earlier < position, program.numbers[earlier]? ≠ some number) ∧
        program.get? number = some line ∧
        program.remove number = (some line, ⟨program.lines.eraseIdx position⟩)) ∧
    program.lineIndex.keys.Perm program.numbers.dedup ∧
    program.danglingJumps = program.lines.filterMap fun line =>
      match line.statement with
      | .goto target | .branch _ target =>
          if program.get? target = none then some (line.number, target) else none
      | .remark _ | .print _ | .input _ | .assign _ _ => none := by
  refine ⟨?_, program.keys_lineIndex_perm,
    danglingJumps_eq_filterMap _ fun target => notMem_numbers_iff⟩
  intro number
  refine ⟨mem_lineIndex_iff.trans mem_numbers_iff, ?_⟩
  intro position found
  rcases getElem?_lineIndex_eq_some_iff.mp found with ⟨there, missed⟩
  rw [numbers, List.getElem?_map, Option.map_eq_some_iff] at there
  rcases there with ⟨line, atPosition, same⟩
  have searched : program.get? number = program.lines[position]? := by
    rw [get?_eq_bind_lineIndex, found, Option.bind_some]
  have removed := remove_eq_eraseIdx found
  rw [atPosition] at searched removed
  exact ⟨line, atPosition, same, missed, searched, removed⟩

/-- Of the two lines of one number the index leads to the first, which is gone
after a removal. -/
example :
    let program : Program := ⟨[⟨20, .goto 10⟩, ⟨10, .input "X"⟩, ⟨10, .goto 5⟩]⟩
    program.lineIndex[(10 : LineNumber)]? = some 1 ∧
      (program.remove 10).2.get? 10 = some ⟨10, .goto 5⟩ := by
  decide

end LineBasic.Program
