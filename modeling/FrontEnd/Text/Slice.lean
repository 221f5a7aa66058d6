/-!
# Byte slices of a text

A text is addressed by byte offsets.  An offset that is past the end, or inside a character, names
no place, and neither does a slice that ends before it starts.
-/

namespace FrontEnd.Slice

/-- A byte offset names a place if it is on a character boundary of the text. -/
abbrev IsBoundary (text : String) (offset : Nat) : Prop :=
  (⟨offset⟩ : String.Pos.Raw).IsValid text

/-- The character that starts at a byte offset, if one does. -/
def charAt? (text : String) (offset : Nat) : Option Char :=
  if hvalid : IsBoundary text offset then
    if hinside : text.pos ⟨offset⟩ hvalid ≠ text.endPos then
      some ((text.pos ⟨offset⟩ hvalid).get hinside)
    else
      none
  else
    none

/-- The text between two byte offsets, if both are character boundaries in this order. -/
def between? (text : String) (first last : Nat) : Option String :=
  if hvalid : IsBoundary text first ∧ IsBoundary text last ∧ first ≤ last then
    some (String.extract (text.pos ⟨first⟩ hvalid.1) (text.pos ⟨last⟩ hvalid.2.1))
  else
    none

/-- A character starts before the end of its text. -/
theorem lt_of_charAt?_isSome {text : String} {offset : Nat}
    (hchar : (charAt? text offset).isSome) : offset < text.utf8ByteSize := by
  unfold charAt? at hchar
  split at hchar
  · rename_i hvalid
    split at hchar
    · rename_i hinside
      have hle : offset ≤ text.utf8ByteSize := hvalid.le_rawEndPos
      have hne : offset ≠ text.utf8ByteSize := fun heq =>
        hinside (String.Pos.ext (by simp [String.Pos.Raw.ext_iff, heq]))
      omega
    · simp at hchar
  · simp at hchar

end FrontEnd.Slice
