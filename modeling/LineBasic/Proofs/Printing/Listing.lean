import LineBasic.Program.Basic
import LineBasic.Proofs.Printing.Row

/-! What a listing tells about a program.

The rows of a listing are the parts between its line breaks. Each row is the text
of one line only, so that the listing tells the whole program. -/

namespace LineBasic

/-! ## Rows -/

/-- The rows of a listing, none of which is empty. -/
def rows (listing : List Char) : List (List Char) :=
  (listing.splitOn '\n').filter fun row => !row.isEmpty

theorem rows_intercalate {texts : List (List Char)}
    (unbroken : ∀ text ∈ texts, '\n' ∉ text) (inked : ∀ text ∈ texts, text ≠ []) :
    rows (['\n'].intercalate texts) = texts := by
  by_cases none : texts = []
  · subst none
    decide
  · rw [rows, List.splitOn_intercalate '\n' unbroken none, List.filter_eq_self]
    intro text member
    simpa using inked text member

/-! ## Listings -/

namespace Program

/-- Whether every line of the program is printed on one row and read back. -/
def Listable (program : Program) : Prop :=
  ∀ line ∈ program.lines, line.statement.Listable

instance (program : Program) : Decidable program.Listable :=
  inferInstanceAs (Decidable (∀ line ∈ program.lines, line.statement.Listable))

theorem Listable.rows_listing {program : Program} (listable : program.Listable) :
    rows program.listing.toList = program.lines.map fun line => line.text.toList := by
  rw [listing, String.toList_intercalate, List.map_map]
  apply rows_intercalate
  · intro text member
    rcases List.mem_map.mp member with ⟨line, inProgram, rfl⟩
    exact Line.newline_notMem_text (listable line inProgram)
  · intro text member
    rcases List.mem_map.mp member with ⟨line, -, rfl⟩
    exact line.toList_text_ne_nil

theorem eq_of_texts_eq {lines others : List Line}
    (listable : ∀ line ∈ lines, line.statement.Listable)
    (otherListable : ∀ line ∈ others, line.statement.Listable)
    (same : lines.map (fun line => line.text.toList) =
      others.map fun line => line.text.toList) : lines = others := by
  induction lines generalizing others with
  | nil => exact (List.map_eq_nil_iff.mp same.symm).symm
  | cons line lines induction =>
      cases others with
      | nil => cases same
      | cons other others =>
          rcases List.cons.inj same with ⟨sameText, sameRest⟩
          rcases List.forall_mem_cons.mp listable with ⟨first, rest⟩
          rcases List.forall_mem_cons.mp otherListable with ⟨otherFirst, otherRest⟩
          rw [Line.eq_of_text_eq first otherFirst (String.toList_inj.mp sameText),
            induction rest otherRest sameRest]

theorem Listable.eq_of_listing_eq {program other : Program}
    (listable : program.Listable) (otherListable : other.Listable)
    (same : program.listing = other.listing) : program = other := by
  have sameRows := listable.rows_listing
  rw [same, otherListable.rows_listing] at sameRows
  have sameLines := eq_of_texts_eq otherListable listable sameRows
  cases program
  cases other
  cases sameLines
  rfl

theorem listable_empty : (∅ : Program).Listable := fun _ member => nomatch member

/-- The listing tells the whole program, the empty listing that there is no line,
and a row all about its line. -/
theorem listing_eq_iff {program other : Program} (listable : program.Listable)
    (otherListable : other.Listable) :
    (program.listing = other.listing ↔ program = other) ∧
      (program.listing = "" ↔ program = ∅) ∧
      ∀ line ∈ program.lines, ∀ otherLine ∈ other.lines,
        line.text = otherLine.text → line = otherLine := by
  refine ⟨⟨listable.eq_of_listing_eq otherListable, fun same => same ▸ rfl⟩,
    ⟨listable.eq_of_listing_eq listable_empty, fun same => same ▸ rfl⟩, ?_⟩
  intro line member otherLine otherMember
  exact Line.eq_of_text_eq (listable line member) (otherListable otherLine otherMember)

/-- Two programs that differ in one pair of parentheses, each with a remark that
looks like a line and a number that is used twice. -/
theorem listing_ne_of_regrouped_difference :
    let minus := fun left right => Expression.binary left .sub right
    let program : Program := ⟨[⟨20, .remark "10 PRINT \"a\""⟩,
      ⟨20, .print (minus (minus (.var "a") (.var "b")) (.var "c"))⟩]⟩
    let other : Program := ⟨[⟨20, .remark "10 PRINT \"a\""⟩,
      ⟨20, .print (minus (.var "a") (minus (.var "b") (.var "c")))⟩]⟩
    program.Listable ∧ other.Listable ∧ program.listing ≠ other.listing := by
  intro minus program other
  have listable : program.Listable := by decide
  have otherListable : other.Listable := by decide
  have differs : program ≠ other := by decide
  refine ⟨listable, otherListable, ?_⟩
  intro same
  exact differs ((listing_eq_iff listable otherListable).1.mp same)

end Program

end LineBasic
