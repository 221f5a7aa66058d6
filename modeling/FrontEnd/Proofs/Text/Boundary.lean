import FrontEnd.Text.Slice

/-!
# Slices at the seams of a text

A text that is put together from parts has a character boundary at every seam.  The character
there is the first one of the part behind it, and the slice between two seams is the part between
them.
-/

namespace FrontEnd.Slice

theorem isBoundary_append (front back : String) :
    IsBoundary (front ++ back) front.utf8ByteSize :=
  String.Pos.Raw.isValid_iff_exists_append.mpr ⟨front, back, rfl, rfl⟩

private theorem splits_append (front back : String) :
    ((front ++ back).pos ⟨front.utf8ByteSize⟩ (isBoundary_append front back)).Splits front back :=
  ⟨rfl, rfl⟩

/-- The character where two parts of a text meet is the first one of the second part. -/
theorem charAt?_append (front : String) (back : List Char) :
    charAt? (front ++ String.ofList back) front.utf8ByteSize = back.head? := by
  have hsplits := splits_append front (String.ofList back)
  rw [charAt?, dif_pos (isBoundary_append front _)]
  cases back with
  | nil =>
      have hend := hsplits.eq_endPos_iff.mpr rfl
      rw [dif_neg (fun hinside => hinside hend)]
      rfl
  | cons character back =>
      have hcons := hsplits.of_eq rfl String.ofList_cons
      have hinside := hcons.ne_endPos_of_singleton
      rw [dif_pos hinside, hcons.next.get_eq_of_singleton]
      rfl

/-- The text between two seams is the part between them. -/
theorem between?_append (first middle last : String) :
    between? (first ++ middle ++ last) first.utf8ByteSize (first ++ middle).utf8ByteSize =
      some middle := by
  have hfirst : IsBoundary (first ++ middle ++ last) first.utf8ByteSize := by
    rw [String.append_assoc]
    exact isBoundary_append first (middle ++ last)
  have hlast := isBoundary_append (first ++ middle) last
  have hle : first.utf8ByteSize ≤ (first ++ middle).utf8ByteSize := by
    rw [String.utf8ByteSize_append]
    exact Nat.le_add_right _ _
  rw [between?, dif_pos ⟨hfirst, hlast, hle⟩, Option.some.injEq, ← String.toByteArray_inj]
  calc (String.extract _ _).toByteArray
      = (first ++ (middle ++ last)).toByteArray.extract (first.utf8ByteSize + 0)
          (first.utf8ByteSize + middle.utf8ByteSize) := by
        rw [String.toByteArray_extract, String.offset_pos, String.offset_pos, String.append_assoc,
          String.utf8ByteSize_append, Nat.add_zero]
    _ = (middle ++ last).toByteArray.extract 0 middle.utf8ByteSize := by
        rw [String.toByteArray_append, ← String.size_toByteArray,
          ByteArray.extract_append_size_add]
    _ = middle.toByteArray := by
        rw [String.toByteArray_append, ByteArray.extract_append_eq_left (String.size_toByteArray).symm]

/-- The text behind a seam is the part behind it. -/
theorem between?_append_end (front back : String) :
    between? (front ++ back) front.utf8ByteSize (front ++ back).utf8ByteSize = some back := by
  have hmiddle := between?_append front back ""
  rwa [String.append_empty] at hmiddle

end FrontEnd.Slice
