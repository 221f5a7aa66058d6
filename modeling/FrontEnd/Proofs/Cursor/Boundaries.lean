import FrontEnd.Proofs.Cursor.Histories
import FrontEnd.Proofs.Cursor.View

/-!
# Character boundaries

A cursor over a text keeps two byte offsets, and the slices that it takes lie between the two, or
between the second one and the end of the text.  A slice is there only if it begins and ends on
character boundaries, and the cursor does not look for any: it moves on by the size of the character
that it has kept, which is right as long as this is the one that the text has at the offset.

`TextCursor.follow` carries out a history on such a cursor.  Behind every history the text consists
of what was consumed up to the mark, what was consumed since then, and what is left, and the offsets
are the seams between these parts (`TextCursor.Logged`).  All slices are taken at seams, so all of
them are there.
-/

namespace FrontEnd.TextCursor

def operate (cursor : TextCursor) : Cursor.Operation String → TextCursor
  | .advance => cursor.advance
  | .mark => cursor.mark
  | .reset text => Cursor.reset cursor text

/-- Carries out operations one after the other, and keeps the log. -/
def follow (cursor : TextCursor) (log : Cursor.Log String) :
    List (Cursor.Operation String) → TextCursor × Cursor.Log String
  | [] => (cursor, log)
  | operation :: history =>
    follow (cursor.operate operation) (log.note cursor.lookahead operation) history

/-- Where a cursor stands in the text that it was last bound to and what it shows of it.  The slices
that it takes are all there. -/
structure OnBoundaries (log : Cursor.Log String) (cursor : TextCursor) : Prop where
  source : cursor.source = log.input
  ordered : cursor.spanStart ≤ cursor.offset
  within : cursor.offset ≤ cursor.source.utf8ByteSize
  spanStart : Slice.IsBoundary cursor.source cursor.spanStart
  offset : Slice.IsBoundary cursor.source cursor.offset
  /-- What lies behind the offset has not been consumed, and the lookahead is its first character. -/
  ahead : ∃ rest,
    Slice.between? cursor.source cursor.offset cursor.source.utf8ByteSize = some rest ∧
      cursor.source = String.ofList log.consumed ++ rest ∧
      Cursor.peek cursor = rest.toList.head?
  atEnd : Cursor.peek cursor = none ↔ cursor.offset = cursor.source.utf8ByteSize
  width : Cursor.width cursor =
    ((Cursor.peek cursor).map fun character => (String.utf8EncodeChar character).length).getD 0
  /-- The slice between the offsets is there, and consists of what was consumed since the mark. -/
  lexeme : Slice.between? cursor.source cursor.spanStart cursor.offset =
      some (Cursor.lexeme cursor) ∧
    Cursor.lexeme cursor = String.ofList log.span
  /-- The slice that advancing takes is there. -/
  advance : ∀ character, Cursor.peek cursor = some character → ∃ rest,
    Slice.between? cursor.source (cursor.offset + character.utf8Size) cursor.source.utf8ByteSize =
        some rest ∧
      Cursor.peek (Cursor.advance cursor) = rest.toList.head?
  final : Cursor.peek cursor = none → Cursor.advance cursor = cursor

/-! ## The parts of a text -/

/-- The cursor's text is the input of the log, and consists of `front`, which was consumed up to the
mark, of what was consumed since then, and of `back`. -/
structure Logged (log : Cursor.Log String) (front : String) (back : List Char)
    (cursor : TextCursor) : Prop where
  source : cursor.source = log.input
  consumed : String.ofList log.consumed = front ++ String.ofList log.span
  splits : cursor.Splits front (String.ofList log.span) back

theorem advance_of_none {cursor : TextCursor} (hnone : cursor.lookahead = none) :
    cursor.advance = cursor := by
  unfold advance
  rw [hnone]

theorem source_advance (cursor : TextCursor) : cursor.advance.source = cursor.source := by
  unfold advance
  split <;> rfl

theorem logged_ofText (text : String) : (ofText text).Logged (.opened text) "" text.toList where
  source := rfl
  consumed := rfl
  splits := splits_ofText text

namespace Logged

variable {log : Cursor.Log String} {front : String} {back : List Char} {cursor : TextCursor}

theorem advance {character : Char} (hlogged : cursor.Logged log front (character :: back)) :
    cursor.advance.Logged
      ⟨log.input, log.consumed ++ [character], log.span ++ [character]⟩ front back := by
  have hpush (characters : List Char) : String.ofList (characters ++ [character]) =
      (String.ofList characters).push character := by
    rw [String.ofList_append, ← String.append_singleton, String.singleton_eq_ofList]
  refine ⟨?_, ?_, ?_⟩
  · rw [source_advance]
    exact hlogged.source
  · show String.ofList (log.consumed ++ [character]) =
      front ++ String.ofList (log.span ++ [character])
    rw [hpush, hpush, hlogged.consumed, ← String.append_singleton, ← String.append_singleton,
      String.append_assoc]
  · show cursor.advance.Splits front (String.ofList (log.span ++ [character])) back
    rw [hpush]
    exact hlogged.splits.advance

theorem mark (hlogged : cursor.Logged log front back) :
    cursor.mark.Logged { log with span := [] } (front ++ String.ofList log.span) back where
  source := hlogged.source
  consumed := by rw [hlogged.consumed, String.ofList_nil, String.append_empty]
  splits := hlogged.splits.mark

theorem operate (hlogged : cursor.Logged log front back) (operation : Cursor.Operation String) :
    ∃ front' back',
      (cursor.operate operation).Logged (log.note cursor.lookahead operation) front' back' := by
  cases operation with
  | advance =>
      have hlookahead := hlogged.splits.lookahead
      cases back with
      | nil =>
          refine ⟨front, [], ?_⟩
          show cursor.advance.Logged (log.note cursor.lookahead .advance) front []
          rw [advance_of_none hlookahead, hlookahead]
          exact hlogged
      | cons character back =>
          refine ⟨front, back, ?_⟩
          rw [hlookahead]
          exact hlogged.advance
  | mark => exact ⟨_, back, hlogged.mark⟩
  | reset text => exact ⟨"", text.toList, logged_ofText text⟩

theorem follow (history : List (Cursor.Operation String)) (hlogged : cursor.Logged log front back) :
    ∃ front' back',
      (cursor.follow log history).1.Logged (cursor.follow log history).2 front' back' := by
  induction history generalizing cursor log front back with
  | nil => exact ⟨front, back, hlogged⟩
  | cons operation history ih =>
      obtain ⟨front', back', hlogged'⟩ := hlogged.operate operation
      exact ih hlogged'

/-! ## Slices at the seams -/

theorem source_eq (hlogged : cursor.Logged log front back) :
    cursor.source = String.ofList log.consumed ++ String.ofList back := by
  rw [hlogged.consumed]
  exact hlogged.splits.source

theorem offset_eq (hlogged : cursor.Logged log front back) :
    cursor.offset = (String.ofList log.consumed).utf8ByteSize := by
  rw [hlogged.consumed]
  exact hlogged.splits.offset

/-- The text behind the lookahead's offset is what is left. -/
theorem between?_offset (hlogged : cursor.Logged log front back) :
    Slice.between? cursor.source cursor.offset cursor.source.utf8ByteSize =
      some (String.ofList back) := by
  rw [hlogged.source_eq, hlogged.offset_eq]
  exact Slice.between?_append_end _ _

theorem size_eq (hlogged : cursor.Logged log front back) :
    cursor.source.utf8ByteSize = cursor.offset + (String.ofList back).utf8ByteSize := by
  rw [hlogged.source_eq, hlogged.offset_eq, String.utf8ByteSize_append]

theorem offset_eq_size_iff (hlogged : cursor.Logged log front back) :
    cursor.offset = cursor.source.utf8ByteSize ↔ back = [] := by
  have hempty : (String.ofList back).utf8ByteSize = 0 ↔ back = [] := by
    rw [String.utf8ByteSize_eq_zero_iff, String.ofList_eq_empty_iff]
  rw [hlogged.size_eq, ← hempty]
  omega

theorem isBoundary_offset (hlogged : cursor.Logged log front back) :
    Slice.IsBoundary cursor.source cursor.offset := by
  rw [hlogged.source_eq, hlogged.offset_eq]
  exact Slice.isBoundary_append _ _

theorem isBoundary_spanStart (hlogged : cursor.Logged log front back) :
    Slice.IsBoundary cursor.source cursor.spanStart := by
  rw [hlogged.splits.source, hlogged.splits.spanStart, String.append_assoc]
  exact Slice.isBoundary_append _ _

theorem between?_spanStart (hlogged : cursor.Logged log front back) :
    Slice.between? cursor.source cursor.spanStart cursor.offset =
      some (String.ofList log.span) := by
  rw [hlogged.splits.source, hlogged.splits.spanStart, hlogged.splits.offset]
  exact Slice.between?_append _ _ _

/-- Behind a lookahead the text goes on at the offset that advancing moves to. -/
theorem between?_advance {character : Char}
    (hlogged : cursor.Logged log front (character :: back)) :
    Slice.between? cursor.source (cursor.offset + character.utf8Size)
        cursor.source.utf8ByteSize = some (String.ofList back) ∧
      cursor.advance.lookahead = back.head? := by
  -- Advancing keeps the text, so the slice is the one behind the offset that it leads to.
  have hslice := hlogged.advance.between?_offset
  have hoffset : cursor.advance.offset = cursor.offset + character.utf8Size := by
    unfold TextCursor.advance
    rw [hlogged.splits.lookahead]
    rfl
  rw [source_advance, hoffset] at hslice
  exact ⟨hslice, hlogged.advance.splits.lookahead⟩

theorem onBoundaries (hlogged : cursor.Logged log front back) : cursor.OnBoundaries log := by
  have hpeek : Cursor.peek cursor = back.head? := hlogged.splits.lookahead
  have hlexeme : Cursor.lexeme cursor = String.ofList log.span := hlogged.splits.lexeme
  refine
    { source := hlogged.source
      ordered := ?ordered
      within := ?within
      spanStart := hlogged.isBoundary_spanStart
      offset := hlogged.isBoundary_offset
      ahead := ⟨_, hlogged.between?_offset, hlogged.source_eq, ?ahead⟩
      atEnd := ?atEnd
      width := ?width
      lexeme := ⟨?slice, hlexeme⟩
      advance := ?advance
      final := advance_of_none }
  case ordered =>
    rw [hlogged.splits.spanStart, hlogged.splits.offset, String.utf8ByteSize_append]
    exact Nat.le_add_right _ _
  case within =>
    rw [hlogged.size_eq]
    exact Nat.le_add_right _ _
  case ahead => rw [String.toList_ofList, hpeek]
  case atEnd => rw [hlogged.offset_eq_size_iff, hpeek, List.head?_eq_none_iff]
  case width =>
    simp only [String.length_utf8EncodeChar]
    rfl
  case slice =>
    rw [hlexeme]
    exact hlogged.between?_spanStart
  case advance =>
    intro character hcharacter
    cases back with
    | nil =>
        rw [hpeek] at hcharacter
        cases hcharacter
    | cons first back =>
        obtain rfl : first = character := Option.some.inj (hpeek.symm.trans hcharacter)
        obtain ⟨hslice, hnext⟩ := hlogged.between?_advance
        refine ⟨_, hslice, ?_⟩
        rw [String.toList_ofList]
        exact hnext

end Logged

/-- **A cursor over a text stays on character boundaries.**  Behind every history both offsets are
boundaries of the text that the cursor was last bound to, in order and inside it.  The lookahead is
the first character behind the second one, its width is the size of its encoding, and the lexeme is
the slice between the two.  Every slice that is taken, to advance or to see the lexeme, is there,
and behind the last character advancing changes nothing. -/
theorem stays_on_boundaries (text : String) (history : List (Cursor.Operation String)) :
    ((ofText text).follow (.opened text) history).1.OnBoundaries
      ((ofText text).follow (.opened text) history).2 := by
  obtain ⟨front, back, hlogged⟩ := (logged_ofText text).follow history
  exact hlogged.onBoundaries

end FrontEnd.TextCursor
