import LineBasic.Proofs.Editing.Lookup

/-! The index of a program.

The index is made in one pass that keeps the first entry for each number. It
leads to the line that a search from the start finds, and it has the numbers for
which there is a line and no others. -/

namespace LineBasic.Program

/-- The numbers of the lines, in the order of the program. -/
def numbers (program : Program) : List LineNumber :=
  program.lines.map Line.number

/-- An entry is made where there is none for the number. -/
theorem getElem?_insertIfNew (index : Std.TreeMap LineNumber Nat)
    (key : LineNumber) (position : Nat) (number : LineNumber) :
    (index.insertIfNew key position)[number]? =
      index[number]?.or (if key = number then some position else none) := by
  simp only [Std.TreeMap.getElem?_insertIfNew, Std.LawfulEqCmp.compare_eq_iff_eq,
    Std.TreeMap.mem_iff_isSome_getElem?]
  by_cases same : key = number
  · subst same
    cases index[key]? <;> simp
  · simp [same]

/-- A pass over lines from a position on adds the first of them for each number
that had no entry. -/
theorem getElem?_foldl_insertIfNew (lines : List Line) (start : Nat)
    (index : Std.TreeMap LineNumber Nat) (number : LineNumber) :
    ((lines.zipIdx start).foldl (fun index (line, position) =>
        index.insertIfNew line.number position) index)[number]? =
      index[number]?.or
        ((lines.findIdx? (·.number = number)).map (start + ·)) := by
  induction lines generalizing start index with
  | nil => simp
  | cons first rest induction =>
      rw [List.zipIdx_cons, List.foldl_cons, induction, getElem?_insertIfNew,
        Option.or_assoc, List.findIdx?_cons]
      congr 1
      by_cases same : first.number = number
      · simp [same]
      · simp [same, Option.map_map, Function.comp_def, Nat.add_left_comm, Nat.add_comm]

theorem getElem?_lineIndex (program : Program) (number : LineNumber) :
    program.lineIndex[number]? = program.lines.findIdx? (·.number = number) := by
  rw [lineIndex, getElem?_foldl_insertIfNew]
  simp

theorem contains_lineIndex (program : Program) (number : LineNumber) :
    program.lineIndex.contains number = decide (number ∈ program.numbers) := by
  rw [Std.TreeMap.contains_eq_isSome_getElem?, getElem?_lineIndex,
    List.findIdx?_isSome, List.any_eq]
  simp [numbers]

end LineBasic.Program
