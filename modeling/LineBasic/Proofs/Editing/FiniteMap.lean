import LineBasic.Proofs.Editing.Lookup
import Mathlib.Data.List.Sort

/-! An edited program as a finite map.

Requests are put to a program and to a map from numbers to lines. Where the
program is ascending the two give the same answers for ever, and the program is
the list of the lines of the map in the order of their numbers. -/

namespace LineBasic

/-- What can be asked of the lines of a program. -/
inductive Request where
  | insert (line : Line)
  | remove (number : LineNumber)
  | get (number : LineNumber)

/-- A line for each of finitely many numbers. -/
abbrev LineMap := Std.TreeMap LineNumber Line

namespace Program

/-- The answer to a request, and the program that it leaves. -/
def answer (program : Program) : Request → Option Line × Program
  | .insert line => (none, program.insert line)
  | .remove number => program.remove number
  | .get number => (program.get? number, program)

/-- The program after requests that are made one after the other. -/
def after (program : Program) (requests : List Request) : Program :=
  requests.foldl (fun program request => (program.answer request).2) program

/-- The lines of the program by their numbers. -/
def toMap (program : Program) : LineMap :=
  Std.TreeMap.ofList (program.lines.map fun line => (line.number, line))

end Program

namespace LineMap

/-- The answer to a request, and the map that it leaves. -/
def answer (map : LineMap) : Request → Option Line × LineMap
  | .insert line => (none, map.insert line.number line)
  | .remove number => (map[number]?, map.erase number)
  | .get number => (map[number]?, map)

/-- The map after requests that are made one after the other. -/
def after (map : LineMap) (requests : List Request) : LineMap :=
  requests.foldl (fun map request => (LineMap.answer map request).2) map

/-- The lines of the map in the order of their numbers. -/
def lines (map : LineMap) : List Line := map.toList.map Prod.snd

end LineMap

namespace Program

/-- A program and a map that find the same line for every number. -/
structure Holds (program : Program) (map : LineMap) : Prop where
  ascending : program.Ascending
  found : ∀ number, program.get? number = map[number]?

/-! ## The same lines -/

theorem Holds.mem_toList_iff {program : Program} {map : LineMap}
    (holds : program.Holds map) {number : LineNumber} {line : Line} :
    (number, line) ∈ map.toList ↔ line ∈ program.lines ∧ line.number = number := by
  rw [Std.TreeMap.mem_toList_iff_getElem?_eq_some, ← holds.found,
    holds.ascending.get?_eq_some_iff]

theorem Holds.lines_eq {program : Program} {map : LineMap}
    (holds : program.Holds map) : program.lines = LineMap.lines map := by
  have mapAscending : (LineMap.lines map).Pairwise fun first second =>
      first.number < second.number := by
    rw [LineMap.lines, List.pairwise_map]
    apply Std.TreeMap.ordered_keys_toList.imp_of_mem
    intro first second firstMember secondMember below
    rw [(holds.mem_toList_iff.mp firstMember).2,
      (holds.mem_toList_iff.mp secondMember).2]
    exact Std.compare_eq_lt.mp below
  -- No two ascending lists have the same members.
  apply List.Pairwise.eq_of_mem_iff holds.ascending mapAscending
  intro line
  rw [LineMap.lines, List.mem_map]
  constructor
  · intro member
    exact ⟨(line.number, line), holds.mem_toList_iff.mpr ⟨member, rfl⟩, rfl⟩
  · rintro ⟨entry, member, rfl⟩
    exact (holds.mem_toList_iff.mp member).1

/-! ## The same answers -/

theorem Ascending.holds_toMap {program : Program} (ascending : program.Ascending) :
    program.Holds program.toMap := by
  refine ⟨ascending, ?_⟩
  intro number
  rw [toMap]
  cases found : program.get? number with
  | none =>
      have missing := get?_eq_none_iff.mp found
      apply (Std.TreeMap.getElem?_ofList_of_contains_eq_false _).symm
      simpa using missing
  | some line =>
      rcases ascending.get?_eq_some_iff.mp found with ⟨member, rfl⟩
      apply (Std.TreeMap.getElem?_ofList_of_mem Std.ReflCmp.compare_self ?_ ?_).symm
      · rw [List.pairwise_map]
        apply ascending.imp
        intro first second below
        simpa using UInt32.ne_of_lt below
      · exact List.mem_map.mpr ⟨line, member, rfl⟩

/-- A request gets the same answer of a program and of its map, and leaves a
program and its map. -/
theorem Holds.answer {program : Program} {map : LineMap}
    (holds : program.Holds map) (request : Request) :
    (program.answer request).1 = (LineMap.answer map request).1 ∧
      (program.answer request).2.Holds (LineMap.answer map request).2 := by
  cases request with
  | insert line =>
      refine ⟨rfl, holds.ascending.insert line, ?_⟩
      intro number
      simp only [Program.answer, LineMap.answer, get?_insert,
        Std.TreeMap.getElem?_insert, Std.LawfulEqCmp.compare_eq_iff_eq,
        holds.found]
  | remove removed =>
      refine ⟨(program.remove_fst removed).trans (holds.found removed),
        holds.ascending.remove removed, ?_⟩
      intro number
      simp only [Program.answer, LineMap.answer, Std.TreeMap.getElem?_erase,
        Std.LawfulEqCmp.compare_eq_iff_eq]
      split
      · rename_i same
        rw [← same, holds.ascending.get?_remove_self]
      · rename_i differs
        rw [get?_remove_of_ne (Ne.symm differs), holds.found]
  | get number => exact ⟨holds.found number, holds⟩

theorem Holds.after {program : Program} {map : LineMap}
    (holds : program.Holds map) (requests : List Request) :
    (program.after requests).Holds (LineMap.after map requests) := by
  induction requests generalizing program map with
  | nil => exact holds
  | cons request later induction => exact induction (holds.answer request).2

/-- An ascending program stays the list of the lines of a map, in the order of
their numbers, whatever is requested. What is got or removed is the line of the
map; getting a line changes nothing, and neither does removing a line that is not
there. -/
theorem Ascending.after_eq_map {program : Program} (ascending : program.Ascending)
    (requests : List Request) :
    let edited := program.after requests
    let map := LineMap.after program.toMap requests
    edited.Ascending ∧ edited.lines = LineMap.lines map ∧
      ∀ number, edited.answer (.get number) = (map[number]?, edited) ∧
        (edited.answer (.remove number)).1 = map[number]? ∧
        (map[number]? = none → (edited.answer (.remove number)).2 = edited) := by
  intro edited map
  have holds : edited.Holds map := ascending.holds_toMap.after requests
  refine ⟨holds.ascending, holds.lines_eq, ?_⟩
  intro number
  have gotten := (holds.answer (.get number)).1
  refine ⟨Prod.ext gotten rfl, (holds.answer (.remove number)).1, ?_⟩
  intro absent
  exact remove_eq_self ((holds.found number).trans absent)

/-- One line is placed between two others, one is replaced, one is taken out, and
one is missed. -/
theorem after_eq_map_of_four_requests :
    let program : Program := ⟨[⟨10, .goto 30⟩, ⟨30, .remark "end"⟩]⟩
    let requests : List Request := [.insert ⟨20, .input "X"⟩, .remove 10,
      .insert ⟨30, .goto 20⟩, .remove 40]
    let edited := program.after requests
    let map := LineMap.after program.toMap requests
    program.Ascending ∧ edited.lines = [⟨20, .input "X"⟩, ⟨30, .goto 20⟩] ∧
      LineMap.lines map = edited.lines ∧ map[(10 : LineNumber)]? = none ∧
      (edited.remove 10).2 = edited := by
  intro program requests edited map
  have ascending : program.Ascending := by decide
  have lines : edited.lines = [⟨20, .input "X"⟩, ⟨30, .goto 20⟩] := by decide
  have refined := ascending.after_eq_map requests
  have gotten := (refined.2.2 10).1
  have absent : map[(10 : LineNumber)]? = none :=
    (congrArg Prod.fst gotten).symm.trans (by decide)
  exact ⟨ascending, lines, refined.2.1.symm, absent, (refined.2.2 10).2.2 absent⟩

end Program

end LineBasic
