import FrontEnd.Cursor.Basic

/-!
# Cursors over a character source

A cursor that reads its source one character ahead and gathers the consumed characters until the
next mark.  The first end or failure is final: no read follows it until the cursor is bound to
another source.  A source that never ends can be walked over all the same; only loops over it need
an end.
-/

namespace FrontEnd

/-- A cursor over a one-pass source. -/
structure SourceCursor (ρ : Type) where
  source : ρ
  lookahead : Option Item
  lexeme : String
  failure? : Option ReadFailure

namespace SourceCursor

section Stream

variable {ρ : Type} [CharStream ρ]

/-- Reads the next lookahead; after a failure the lookahead is the end and nothing is read. -/
def fill (cursor : SourceCursor ρ) : SourceCursor ρ :=
  if cursor.failure?.isSome then
    { cursor with lookahead := none }
  else
    match CharStream.read cursor.source with
    | (.ok item, source) => { cursor with source, lookahead := item }
    | (.error failure, source) => { cursor with source, lookahead := none, failure? := some failure }

/-- The cursor at the beginning of a source, with its first character read. -/
def ofSource (source : ρ) : SourceCursor ρ :=
  fill ⟨source, none, "", none⟩

/-- Appends the lookahead to the lexeme and reads the next one. -/
def advance (cursor : SourceCursor ρ) : SourceCursor ρ :=
  match cursor.lookahead with
  | none => cursor
  | some item => fill { cursor with lexeme := cursor.lexeme.push item.character }

/-- Forgets the characters gathered so far. -/
def mark (cursor : SourceCursor ρ) : SourceCursor ρ :=
  { cursor with lexeme := "" }

/-- Binds the cursor to another source and forgets all about the one before. -/
def reset (cursor : SourceCursor ρ) (source : ρ) : SourceCursor ρ :=
  fill { cursor with source, lexeme := "", failure? := none }

end Stream

variable {ρ : Type} [CharSource ρ]

/-- A bound on the characters ahead: those of the source, and one for a lookahead. -/
def remaining (cursor : SourceCursor ρ) : Nat :=
  CharSource.remaining cursor.source + (if cursor.lookahead.isSome then 1 else 0)

/-- Filling never leaves more ahead than the source had. -/
theorem remaining_fill_le (cursor : SourceCursor ρ) :
    cursor.fill.remaining ≤ CharSource.remaining cursor.source := by
  have hle := CharSource.remaining_read_le cursor.source
  have hlt := CharSource.remaining_read_lt cursor.source
  unfold fill remaining
  generalize CharStream.read cursor.source = answer at hle hlt
  obtain ⟨reading, source⟩ := answer
  split
  · simp
  · match reading with
    | .ok none => simpa using hle
    | .ok (some item) =>
        have := hlt item rfl
        simp only [Option.isSome_some, if_true] at this ⊢
        omega
    | .error failure => simpa using hle

theorem remaining_advance (cursor : SourceCursor ρ) (hpeek : cursor.lookahead.isSome) :
    cursor.advance.remaining < cursor.remaining := by
  obtain ⟨item, hitem⟩ := Option.isSome_iff_exists.mp hpeek
  have hfill := remaining_fill_le { cursor with lexeme := cursor.lexeme.push item.character }
  simp only [advance, hitem]
  simp only [remaining, hitem, Option.isSome_some, if_true] at hfill ⊢
  omega

instance : Cursor (SourceCursor ρ) ρ where
  peek cursor := cursor.lookahead.map Item.character
  width cursor := (cursor.lookahead.map Item.width).getD 0
  advance := advance
  mark := mark
  lexeme := lexeme
  reset := reset
  failure? := failure?
  remaining := remaining
  remaining_advance cursor hpeek := remaining_advance cursor (by simpa using hpeek)

end SourceCursor

end FrontEnd
