/-! Parts of a text between byte offsets. An offset may lie out of range or inside
a character, and then there is no part. -/

namespace LineBasic

/-- The part of a text between two byte offsets. There is none if an offset is
out of range or inside a character, or if they are in the wrong order. -/
def slice? (text : String) (start finish : Nat) : Option String := do
  let first ← text.pos? ⟨start⟩
  let last ← text.pos? ⟨finish⟩
  let part ← text.slice? first last
  return part.copy

/-- What stands in a text behind a byte offset. -/
def sliceFrom? (text : String) (start : Nat) : Option String.Slice :=
  (text.pos? ⟨start⟩).map text.sliceFrom

/-! ## Offsets and places -/

theorem pos?_offset {text : String} (place : text.Pos) :
    text.pos? place.offset = some place := by
  have valid : place.offset.isValidForSlice text.toSlice = true :=
    String.Pos.Raw.isValidForSlice_eq_true_iff.mpr place.isValid.toSlice
  simp only [String.pos?, String.Slice.pos?, dif_pos valid]
  rfl

theorem offset_of_pos? {text : String} {offset : String.Pos.Raw}
    {place : text.Pos} (found : text.pos? offset = some place) :
    place.offset = offset := by
  simp only [String.pos?, String.Slice.pos?] at found
  split at found
  · cases found
    rfl
  · cases found

theorem exists_splits {text front behind : String}
    (whole : front ++ behind = text) :
    ∃ place : text.Pos, place.Splits front behind :=
  ⟨text.pos front.rawEndPos (String.Pos.Raw.isValid_iff_exists_append.mpr
    ⟨front, behind, whole.symm, rfl⟩), whole.symm, by simp⟩

/-! ## Where a part is cut out -/

/-- A part is cut out exactly where the offsets count the bytes in front of it
and up to its end. -/
theorem slice?_eq_some_iff {text part : String} {start finish : Nat} :
    slice? text start finish = some part ↔
      ∃ front behind : String, front ++ (part ++ behind) = text ∧
        start = front.utf8ByteSize ∧ finish = (front ++ part).utf8ByteSize := by
  simp only [slice?, Option.bind_eq_bind, Option.bind_eq_some_iff, String.slice?]
  constructor
  · rintro ⟨first, atStart, last, atFinish, slice, ordered, cut⟩
    split at ordered
    · rename_i inOrder
      cases ordered
      rcases String.copy_slice_eq_iff_splits.mp ⟨inOrder, Option.some.inj cut⟩ with
        ⟨front, behind, splitStart, splitFinish⟩
      have startEqual :=
        (offset_of_pos? atStart).symm.trans splitStart.offset_eq_rawEndPos
      have finishEqual :=
        (offset_of_pos? atFinish).symm.trans splitFinish.offset_eq_rawEndPos
      exact ⟨front, behind, splitStart.eq_append.symm,
        congrArg String.Pos.Raw.byteIdx startEqual,
        congrArg String.Pos.Raw.byteIdx finishEqual⟩
    · cases ordered
  · rintro ⟨front, behind, whole, rfl, rfl⟩
    rcases exists_splits whole with ⟨first, splitStart⟩
    rcases exists_splits ((String.append_assoc ..).trans whole) with
      ⟨last, splitFinish⟩
    rcases String.copy_slice_eq_iff_splits.mpr
      ⟨front, behind, splitStart, splitFinish⟩ with ⟨inOrder, copied⟩
    have atStart := pos?_offset first
    have atFinish := pos?_offset last
    rw [splitStart.offset_eq_rawEndPos] at atStart
    rw [splitFinish.offset_eq_rawEndPos] at atFinish
    exact ⟨first, atStart, last, atFinish, _, dif_pos inOrder,
      congrArg some copied⟩

/-- What stands behind an offset is the other half of the text, where the offset
counts the bytes of the first half. -/
theorem map_copy_sliceFrom?_eq_some_iff {text behind : String} {start : Nat} :
    (sliceFrom? text start).map String.Slice.copy = some behind ↔
      ∃ front : String, front ++ behind = text ∧ start = front.utf8ByteSize := by
  simp only [sliceFrom?, Option.map_map, Option.map_eq_some_iff, Function.comp_apply]
  constructor
  · rintro ⟨place, atStart, rfl⟩
    have split := place.splits
    have startEqual :=
      (offset_of_pos? atStart).symm.trans split.offset_eq_rawEndPos
    exact ⟨_, split.eq_append.symm, congrArg String.Pos.Raw.byteIdx startEqual⟩
  · rintro ⟨front, whole, rfl⟩
    rcases exists_splits whole with ⟨place, split⟩
    have atStart := pos?_offset place
    rw [split.offset_eq_rawEndPos] at atStart
    exact ⟨place, atStart, split.copy_sliceFrom_eq⟩

end LineBasic
