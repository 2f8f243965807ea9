import LineBasic.Program.Basic

/-! What an edit does to the lines that are found by number.

These laws hold for all programs, whatever the order of their lines and however
often a number occurs. In an ascending program every number occurs once at most,
so that a line is found exactly if it is there. -/

namespace LineBasic.Program

section

variable {program : Program} {line : Line} {number removed : LineNumber}

/-! ## Searches -/

theorem get?_cons (first : Line) (rest : List Line) (number : LineNumber) :
    get? ⟨first :: rest⟩ number =
      if first.number = number then some first else get? ⟨rest⟩ number := by
  by_cases same : first.number = number <;> simp [get?, same]

theorem number_of_get? (found : program.get? number = some line) :
    line.number = number := by
  simpa using List.find?_some found

theorem get?_eq_none_iff :
    program.get? number = none ↔ ∀ line ∈ program.lines, line.number ≠ number := by
  simp [get?]

/-- A removal goes to the line that a search finds. -/
theorem remove_eq (program : Program) (number : LineNumber) :
    program.remove number =
      (program.get? number, ⟨program.lines.eraseP (·.number = number)⟩) := by
  rw [get?, List.find?_eq_bind_findIdx?_getElem?, List.eraseP_eq_eraseIdx, remove]
  cases program.lines.findIdx? (·.number = number) with
  | none => rfl
  | some position => rfl

theorem remove_fst (program : Program) (number : LineNumber) :
    (program.remove number).1 = program.get? number := by
  rw [remove_eq]

/-! ## Edits -/

theorem mem_place {lines : List Line} {member : Line}
    (inPlaced : member ∈ place line lines) : member = line ∨ member ∈ lines := by
  induction lines with
  | nil => exact .inl (List.mem_singleton.mp inPlaced)
  | cons first rest induction =>
      rw [place] at inPlaced
      split at inPlaced
      · rcases List.mem_cons.mp inPlaced with rfl | later
        · exact .inr List.mem_cons_self
        · exact (induction later).imp_right (List.mem_cons_of_mem first)
      · split at inPlaced
        · exact (List.mem_cons.mp inPlaced).imp_right (List.mem_cons_of_mem first)
        · exact List.mem_cons.mp inPlaced

/-- An inserted line is found under its number, and all other numbers find what
they found before. -/
theorem get?_insert (program : Program) (line : Line) (number : LineNumber) :
    (program.insert line).get? number =
      if line.number = number then some line else program.get? number := by
  rcases program with ⟨lines⟩
  rw [insert]
  induction lines with
  | nil => rw [place, get?_cons]
  | cons first rest induction =>
      rw [place]
      split
      · rename_i before
        rw [get?_cons, induction, get?_cons]
        -- The line goes behind the first one, whose number is another.
        have differs : first.number ≠ line.number := UInt32.ne_of_lt before
        by_cases same : first.number = number
        · have other : line.number ≠ number := fun equal =>
            differs (same.trans equal.symm)
          rw [if_pos same, if_neg other, if_pos same]
        · rw [if_neg same, if_neg same]
      · split
        · rename_i replaced
          rw [get?_cons, get?_cons, replaced]
          by_cases same : line.number = number
          · rw [if_pos same, if_pos same]
          · rw [if_neg same, if_neg same, if_neg same]
        · rw [get?_cons]

theorem get?_remove_of_ne (differs : number ≠ removed) :
    (program.remove removed).2.get? number = program.get? number := by
  rcases program with ⟨lines⟩
  simp only [remove_eq]
  induction lines with
  | nil => rfl
  | cons first rest induction =>
      by_cases gone : first.number = removed
      · rw [List.eraseP_cons_of_pos (by simpa using gone), get?_cons,
          if_neg fun same => differs (same.symm.trans gone)]
      · rw [List.eraseP_cons_of_neg (by simpa using gone), get?_cons, induction,
          get?_cons]

/-- Where no line has the number there is nothing to take out. -/
theorem remove_eq_self (absent : program.get? number = none) :
    (program.remove number).2 = program := by
  have missing := List.find?_eq_none.mp absent
  rw [remove_eq, List.eraseP_of_forall_not missing]

end

/-! ## Ascending programs -/

/-- Whether every line has a larger number than the lines before it. -/
def Ascending (program : Program) : Prop :=
  program.lines.Pairwise fun first second => first.number < second.number

instance (program : Program) : Decidable program.Ascending :=
  inferInstanceAs (Decidable (List.Pairwise _ _))

section

variable {program : Program} {number : LineNumber}

theorem Ascending.insert (ascending : program.Ascending) (line : Line) :
    (program.insert line).Ascending := by
  rcases program with ⟨lines⟩
  simp only [Ascending, Program.insert] at ascending ⊢
  induction lines with
  | nil => exact List.pairwise_singleton _ line
  | cons first rest induction =>
      rcases List.pairwise_cons.mp ascending with ⟨firstBelow, restAscending⟩
      rw [place]
      split
      · rename_i before
        refine List.Pairwise.cons ?_ (induction restAscending)
        intro later member
        rcases mem_place member with rfl | old
        · exact before
        · exact firstBelow later old
      · rename_i notBefore
        split
        · rename_i replaced
          exact List.Pairwise.cons (replaced ▸ firstBelow) restAscending
        · rename_i differs
          have below : line.number < first.number :=
            UInt32.lt_of_le_of_ne (UInt32.not_lt.mp notBefore) fun equal =>
              differs equal.symm
          refine List.Pairwise.cons ?_ ascending
          intro later member
          rcases List.mem_cons.mp member with rfl | old
          · exact below
          · exact UInt32.lt_trans below (firstBelow later old)

theorem Ascending.remove (ascending : program.Ascending) (number : LineNumber) :
    (program.remove number).2.Ascending := by
  rw [remove_eq]
  exact List.Pairwise.sublist List.eraseP_sublist ascending

/-- Lines of one number are one line. -/
theorem Ascending.get?_eq_some_iff (ascending : program.Ascending) {line : Line} :
    program.get? number = some line ↔
      line ∈ program.lines ∧ line.number = number := by
  constructor
  · intro found
    exact ⟨List.mem_of_find?_eq_some found, number_of_get? found⟩
  · intro there
    rcases there with ⟨member, rfl⟩
    rcases program with ⟨lines⟩
    simp only [Ascending] at ascending
    induction lines with
    | nil => cases member
    | cons first rest induction =>
        rcases List.pairwise_cons.mp ascending with ⟨firstBelow, restAscending⟩
        rw [get?_cons]
        rcases List.mem_cons.mp member with rfl | later
        · rw [if_pos rfl]
        · rw [if_neg (UInt32.ne_of_lt (firstBelow line later))]
          exact induction restAscending later

theorem Ascending.get?_remove_self (ascending : program.Ascending)
    (number : LineNumber) : (program.remove number).2.get? number = none := by
  rcases program with ⟨lines⟩
  simp only [Ascending, remove_eq] at ascending ⊢
  induction lines with
  | nil => rfl
  | cons first rest induction =>
      rcases List.pairwise_cons.mp ascending with ⟨firstBelow, restAscending⟩
      by_cases gone : first.number = number
      · rw [List.eraseP_cons_of_pos (by simpa using gone), get?_eq_none_iff]
        intro line member
        exact (UInt32.ne_of_lt (gone ▸ firstBelow line member)).symm
      · rw [List.eraseP_cons_of_neg (by simpa using gone), get?_cons, if_neg gone]
        exact induction restAscending

end

end LineBasic.Program
