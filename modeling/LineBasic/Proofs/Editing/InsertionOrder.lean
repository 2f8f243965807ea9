import LineBasic.Proofs.Editing.Placement
import Mathlib.Data.List.Pairwise

/-! Insertions in series.

Lines of different numbers find the same places in either order, and of lines of
one number the last one stays. What a series of insertions makes of a program is
therefore told by the last line that it has for each number. -/

namespace LineBasic

/-- The last of the lines that have the number. -/
def lastLine? (lines : List Line) (number : LineNumber) : Option Line :=
  lines.reverse.find? (·.number = number)

/-- The lines without those that are followed by one of their own number. -/
def lastLines : List Line → List Line
  | [] => []
  | first :: later =>
      if ∃ other ∈ later, other.number = first.number then lastLines later
      else first :: lastLines later

/-! ## The last line of each number -/

section

variable {first : Line} {lines later : List Line} {number : LineNumber}

theorem lastLine?_eq_none_iff :
    lastLine? lines number = none ↔ ∀ line ∈ lines, line.number ≠ number := by
  simp [lastLine?]

theorem lastLine?_cons (first : Line) (later : List Line) (number : LineNumber) :
    lastLine? (first :: later) number =
      (lastLine? later number).or
        (if first.number = number then some first else none) := by
  simp [lastLine?, List.find?_append, List.find?_singleton]

theorem lastLine?_of_overwritten
    (overwritten : ∃ other ∈ later, other.number = first.number)
    (number : LineNumber) :
    lastLine? (first :: later) number = lastLine? later number := by
  rw [lastLine?_cons]
  cases found : lastLine? later number with
  | some last => rfl
  | none =>
      rcases overwritten with ⟨other, member, same⟩
      have differs : first.number ≠ number := fun equal =>
        lastLine?_eq_none_iff.mp found other member (same.trans equal)
      rw [if_neg differs]
      rfl

theorem lastLine?_of_last (last : ∀ other ∈ later, other.number ≠ first.number)
    (number : LineNumber) :
    lastLine? (first :: later) number =
      if first.number = number then some first else lastLine? later number := by
  rw [lastLine?_cons]
  split
  · rename_i same
    rw [lastLine?_eq_none_iff.mpr (same ▸ last)]
    rfl
  · exact Option.or_none

theorem mem_lastLines_iff {line : Line} :
    line ∈ lastLines lines ↔ lastLine? lines line.number = some line := by
  induction lines with
  | nil => simp [lastLines, lastLine?]
  | cons first later induction =>
      rw [lastLines]
      split
      · rename_i overwritten
        rw [induction, lastLine?_of_overwritten overwritten]
      · rename_i last
        rw [not_exists] at last
        have missing : ∀ other ∈ later, other.number ≠ first.number := by
          simpa using last
        rw [List.mem_cons, induction, lastLine?_of_last missing]
        split
        · rename_i same
          rw [← same, lastLine?_eq_none_iff.mpr missing]
          simp [eq_comm]
        · rename_i differs
          have other : line ≠ first := fun equal => differs (equal ▸ rfl)
          simp [other]

theorem nodup_lastLines (lines : List Line) : (lastLines lines).Nodup := by
  induction lines with
  | nil => exact List.nodup_nil
  | cons first later induction =>
      rw [lastLines]
      split
      · exact induction
      · rename_i last
        refine List.nodup_cons.mpr ⟨?_, induction⟩
        intro member
        have found := mem_lastLines_iff.mp member
        exact last ⟨first, by simpa using List.mem_of_find?_eq_some found, rfl⟩

/-- Lists with the same last lines have them in different orders at most. -/
theorem lastLines_perm {lines others : List Line}
    (same : ∀ number, lastLine? lines number = lastLine? others number) :
    (lastLines lines).Perm (lastLines others) := by
  rw [List.perm_ext_iff_of_nodup (nodup_lastLines lines) (nodup_lastLines others)]
  intro line
  rw [mem_lastLines_iff, mem_lastLines_iff, same]

end

namespace Program

/-! ## Two insertions -/

theorem head?_place {line next : Line} {lines : List Line}
    (head : next ∈ (place line lines).head?) :
    next = line ∨ next ∈ lines.head? := by
  cases lines with
  | nil => exact .inl (Option.some.inj head).symm
  | cons first rest =>
      rw [place] at head
      split at head
      · exact .inr head
      · split at head <;> exact .inl (Option.some.inj head).symm

theorem place_place_of_lt {lower upper : Line} (below : lower.number < upper.number)
    (lines : List Line) :
    place upper (place lower lines) = place lower (place upper lines) := by
  induction lines with
  | nil =>
      have above : ∀ next ∈ [upper].head?, lower.number < next.number := by
        simpa using below
      exact (place_behind below []).trans (place_before above).symm
  | cons first rest induction =>
      rcases Std.lt_trichotomy first.number lower.number with smaller | same | larger
      · have smallerToo := UInt32.lt_trans smaller below
        rw [place_behind smaller, place_behind smallerToo, place_behind smallerToo,
          place_behind smaller, induction]
      · have smaller : first.number < upper.number := same ▸ below
        rw [place_over same, place_behind below, place_behind smaller,
          place_over same]
      · -- Wherever the upper line goes, the lower one comes in front of all.
        have larger : ∀ next ∈ (first :: rest).head?, lower.number < next.number := by
          simpa using larger
        have largerStill : ∀ next ∈ (place upper (first :: rest)).head?,
            lower.number < next.number := by
          intro next head
          rcases head?_place head with rfl | old
          · exact below
          · exact larger next old
        rw [place_before larger, place_behind below, place_before largerStill]

theorem insert_comm (program : Program) {first second : Line}
    (differs : first.number ≠ second.number) :
    (program.insert first).insert second = (program.insert second).insert first := by
  rcases Std.lt_trichotomy first.number second.number with below | same | above
  · exact congrArg mk (place_place_of_lt below program.lines)
  · exact absurd same differs
  · exact congrArg mk (place_place_of_lt above program.lines).symm

theorem insert_insert_of_same (program : Program) {first second : Line}
    (same : first.number = second.number) :
    (program.insert first).insert second = program.insert second := by
  rcases program with ⟨lines⟩
  simp only [insert, mk.injEq]
  induction lines with
  | nil => exact place_over same []
  | cons head rest induction =>
      rcases Std.lt_trichotomy head.number first.number with smaller | equal | larger
      · have smallerToo : head.number < second.number := same ▸ smaller
        rw [place_behind smaller, place_behind smallerToo, place_behind smallerToo,
          induction]
      · rw [place_over equal, place_over same, place_over (equal.trans same)]
      · have larger : ∀ next ∈ (head :: rest).head?, first.number < next.number := by
          simpa using larger
        rw [place_before larger, place_over same, place_before (same ▸ larger)]

/-! ## Any number of insertions -/

/-- Inserts the lines one after the other. -/
def insertAll (program : Program) (lines : List Line) : Program :=
  lines.foldl insert program

theorem insertAll_of_overwritten (program : Program) {first : Line}
    {later : List Line} (overwritten : ∃ other ∈ later, other.number = first.number) :
    program.insertAll (first :: later) = program.insertAll later := by
  induction later generalizing program with
  | nil => simp at overwritten
  | cons next rest induction =>
      rw [insertAll, List.foldl_cons, List.foldl_cons, insertAll, List.foldl_cons]
      by_cases same : next.number = first.number
      · rw [insert_insert_of_same program same.symm]
      · rw [insert_comm program (Ne.symm same)]
        apply induction (program.insert next)
        simpa [same] using overwritten

theorem insertAll_lastLines (program : Program) (lines : List Line) :
    program.insertAll (lastLines lines) = program.insertAll lines := by
  induction lines generalizing program with
  | nil => rfl
  | cons first later induction =>
      rw [lastLines]
      split
      · rename_i overwritten
        rw [induction, insertAll_of_overwritten program overwritten]
      · exact induction (program.insert first)

/-- What a series of insertions makes of a program depends on the last line that
it has for each number, and on nothing else. In particular two lines of different
numbers are inserted in either order, and of two lines of one number the later one
is as good as both. -/
theorem insertAll_eq_of_lastLine?_eq (program : Program) :
    (∀ lines others, (∀ number, lastLine? lines number = lastLine? others number) →
      program.insertAll lines = program.insertAll others) ∧
    ∀ first second, (program.insert first).insert second =
      if first.number = second.number then program.insert second
      else (program.insert second).insert first := by
  constructor
  · intro lines others same
    -- The last lines of both series are the same, though not in the same order.
    rw [← insertAll_lastLines, ← insertAll_lastLines program others]
    apply (lastLines_perm same).foldl_eq'
    intro first firstMember second secondMember program
    by_cases equal : first.number = second.number
    · have firstFound := mem_lastLines_iff.mp firstMember
      rw [equal, mem_lastLines_iff.mp secondMember] at firstFound
      rw [Option.some.inj firstFound]
    · exact insert_comm program equal
  · intro first second
    split
    · rename_i same
      exact insert_insert_of_same program same
    · rename_i differs
      exact insert_comm program differs

/-- A line that is replaced later, and a program that has both numbers twice and
neither in order. -/
theorem insertAll_eq_of_two_series :
    let program : Program := ⟨[⟨30, .goto 10⟩, ⟨20, .remark ""⟩, ⟨30, .input "X"⟩,
      ⟨10, .remark ""⟩, ⟨20, .goto 30⟩]⟩
    let lines : List Line := [⟨20, .goto 10⟩, ⟨10, .input "Y"⟩, ⟨20, .goto 20⟩]
    let others : List Line := [⟨20, .goto 20⟩, ⟨10, .goto 20⟩, ⟨10, .input "Y"⟩]
    program.insertAll lines = program.insertAll others ∧
      (program.insertAll lines).lines =
        [⟨10, .input "Y"⟩, ⟨20, .goto 20⟩, ⟨30, .goto 10⟩, ⟨20, .remark ""⟩,
          ⟨30, .input "X"⟩, ⟨10, .remark ""⟩, ⟨20, .goto 30⟩] := by
  intro program lines others
  have same : ∀ number, lastLine? lines number = lastLine? others number := by
    intro number
    by_cases ten : number = 10
    · rw [ten]
      decide
    · by_cases twenty : number = 20
      · rw [twenty]
        decide
      · have absent : ∀ line ∈ lines ++ others, line.number ≠ number := by
          simp [lines, others, Ne.symm ten, Ne.symm twenty]
        rw [List.forall_mem_append] at absent
        rw [lastLine?_eq_none_iff.mpr absent.1, lastLine?_eq_none_iff.mpr absent.2]
  exact ⟨(insertAll_eq_of_lastLine?_eq program).1 lines others same, by decide⟩

end Program

end LineBasic
