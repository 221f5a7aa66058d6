import FrontEnd.Proofs.Cursor.Histories
import FrontEnd.Proofs.Cursor.View

/-!
# Streams that go on behind their end

A loop over a cursor ends if finitely many items are ahead.  A stream may well deliver more of them
behind an end or a failure, for ever even, but a cursor never reads so far.  So it is enough that
finitely many items come before that.

A `Bounded` stream is one that has such items, and a `BoundedCursor` is a cursor that has such items
ahead.  It is moved just as the cursor that it contains, and the items serve to bound the moves.
-/

namespace FrontEnd

/-- A stream together with what it gives before its first end or failure.  Nothing is said of what
it delivers behind that. -/
structure Bounded (σ : Type) [CharStream σ] where
  stream : σ
  contents : Contents
  gives : CharSource.Gives stream contents.items contents.failure?

/-- A cursor over a stream together with the items ahead of it and the failure behind them. -/
structure BoundedCursor (σ : Type) [CharStream σ] where
  cursor : SourceCursor σ
  ahead : Contents
  shows : cursor.Shows ahead.failure? cursor.lexeme ahead.items

namespace BoundedCursor

variable {σ : Type} [CharStream σ]

/-- The cursor at the beginning of a stream, with its first character read. -/
def ofSource (source : Bounded σ) : BoundedCursor σ where
  cursor := .ofSource source.stream
  ahead := source.contents
  shows := by
    have hshows := SourceCursor.shows_ofSource source.gives
    rwa [hshows.lexeme]

theorem shows_advance (bounded : BoundedCursor σ) :
    bounded.cursor.advance.Shows bounded.ahead.failure? bounded.cursor.advance.lexeme
      bounded.ahead.items.tail := by
  have hshows := bounded.shows
  cases hitems : bounded.ahead.items with
  | nil =>
      rw [hitems] at hshows
      rw [SourceCursor.advance_of_none hshows.lookahead]
      exact hshows
  | cons item items =>
      rw [hitems] at hshows
      have hadvance := hshows.advance
      rwa [hadvance.lexeme]

def advance (bounded : BoundedCursor σ) : BoundedCursor σ where
  cursor := bounded.cursor.advance
  ahead := { bounded.ahead with items := bounded.ahead.items.tail }
  shows := bounded.shows_advance

def mark (bounded : BoundedCursor σ) : BoundedCursor σ where
  cursor := bounded.cursor.mark
  ahead := bounded.ahead
  shows := bounded.shows.mark

def reset (bounded : BoundedCursor σ) (source : Bounded σ) : BoundedCursor σ where
  cursor := bounded.cursor.reset source.stream
  ahead := source.contents
  shows := by
    have hshows := SourceCursor.shows_reset bounded.cursor source.gives
    rwa [hshows.lexeme]

instance : Cursor (BoundedCursor σ) (Bounded σ) where
  peek bounded := bounded.cursor.lookahead.map Item.character
  width bounded := (bounded.cursor.lookahead.map Item.width).getD 0
  advance := advance
  mark := mark
  lexeme bounded := bounded.cursor.lexeme
  reset := reset
  failure? bounded := bounded.cursor.failure?
  remaining bounded := bounded.ahead.items.length
  remaining_advance := by
    intro bounded hpeek
    have hitems : bounded.ahead.items ≠ [] := by
      rw [Option.isSome_map, bounded.shows.lookahead, List.isSome_head?] at hpeek
      simpa using hpeek
    have hlength : 0 < bounded.ahead.items.length := List.length_pos_iff.mpr hitems
    show bounded.ahead.items.tail.length < bounded.ahead.items.length
    rw [List.length_tail]
    omega

theorem view {failure? : Option ReadFailure} :
    Cursor.View (fun bounded : BoundedCursor σ => bounded.cursor.Shows failure?) failure? where
  peek hshows := hshows.peek
  width hshows := hshows.width
  lexeme hshows := hshows.lexeme
  failure hshows := hshows.failure
  advance hshows := hshows.advance
  mark hshows := hshows.mark

end BoundedCursor

end FrontEnd
