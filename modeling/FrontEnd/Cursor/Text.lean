import FrontEnd.Cursor.Basic
import FrontEnd.Text.Slice

/-!
# Cursors over a text

A cursor that walks a text in memory by byte offsets.  Its span is a slice of the text, so that
nothing is copied while scanning.
-/

namespace FrontEnd

/-- A cursor over a text: the byte offsets of the lookahead and of the span, and the character at
the lookahead's offset. -/
structure TextCursor where
  source : String
  offset : Nat
  spanStart : Nat
  lookahead : Option Char

namespace TextCursor

/-- The cursor at the beginning of a text. -/
def ofText (source : String) : TextCursor :=
  ⟨source, 0, 0, Slice.charAt? source 0⟩

/-- Steps over the lookahead by the width of its encoding. -/
def advance (cursor : TextCursor) : TextCursor :=
  match cursor.lookahead with
  | none => cursor
  | some character =>
    let offset := cursor.offset + character.utf8Size
    { cursor with offset, lookahead := Slice.charAt? cursor.source offset }

/-- Starts the span at the lookahead. -/
def mark (cursor : TextCursor) : TextCursor :=
  { cursor with spanStart := cursor.offset }

/-- The slice from the span's start to the lookahead. -/
def lexeme (cursor : TextCursor) : String :=
  (Slice.between? cursor.source cursor.spanStart cursor.offset).getD ""

/-- A bound on the characters ahead: the bytes behind the offset, and one for a lookahead. -/
def remaining (cursor : TextCursor) : Nat :=
  (cursor.source.utf8ByteSize - cursor.offset) + (if cursor.lookahead.isSome then 1 else 0)

theorem remaining_advance (cursor : TextCursor) (hpeek : cursor.lookahead.isSome) :
    cursor.advance.remaining < cursor.remaining := by
  obtain ⟨character, hcharacter⟩ := Option.isSome_iff_exists.mp hpeek
  have hsize := character.utf8Size_pos
  simp only [advance, hcharacter, remaining, Option.isSome_some, if_true]
  split
  · rename_i hnext
    have := Slice.lt_of_charAt?_isSome hnext
    omega
  · omega

instance : Cursor TextCursor String where
  peek := lookahead
  width cursor := (cursor.lookahead.map Char.utf8Size).getD 0
  advance := advance
  mark := mark
  lexeme := lexeme
  reset _ source := ofText source
  failure? _ := none
  remaining := remaining
  remaining_advance := remaining_advance

end TextCursor

end FrontEnd
