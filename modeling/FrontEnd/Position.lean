/-!
# Places in an input

A location counts bytes, lines and columns; a position is a location in a named input.  Lines and
columns count from one, and columns count characters.  Line zero says that the place is unknown.
-/

namespace FrontEnd

/-- A place in an input, as a byte offset and as a line and column. -/
structure Location where
  offset : UInt64
  line : UInt32
  column : UInt32
deriving DecidableEq, Inhabited

namespace Location

/-- Where every input begins. -/
def first : Location := ⟨0, 1, 1⟩

/-- The place behind a character of the given width: a newline opens the next line, any other
character moves one column to the right. -/
def past (location : Location) (character : Char) (width : Nat) : Location :=
  if character = '\n' then
    ⟨location.offset + UInt64.ofNat width, location.line + 1, 1⟩
  else
    ⟨location.offset + UInt64.ofNat width, location.line, location.column + 1⟩

end Location

/-- A location in a named input.  The empty name stands for an anonymous input. -/
structure Position extends Location where
  filename : String
deriving DecidableEq, Inhabited

namespace Position

/-- The position of something that stands in no input. -/
def unknown : Position := ⟨⟨0, 0, 0⟩, ""⟩

/-- Only positions with a line number refer to a place. -/
def isKnown (position : Position) : Bool :=
  decide (0 < position.line)

/-- A position is written `file:line:column`, or as the file alone if the place is unknown. -/
def text (position : Position) : String :=
  let name := if position.filename.isEmpty then "<input>" else position.filename
  if position.isKnown then
    name ++ ":" ++ toString position.line.toNat ++ ":" ++ toString position.column.toNat
  else
    name

end Position

/-- The place of a location in the input of that name. -/
def Location.inFile (location : Location) (filename : String) : Position :=
  ⟨location, filename⟩

end FrontEnd
