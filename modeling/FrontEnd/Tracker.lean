import FrontEnd.Cursor.Basic
import FrontEnd.Position
import FrontEnd.Text.Keywords

/-!
# Trackers

A tracker is a cursor that knows where it is.  It offers the primitives that scanning functions
are made of: look at the next character, consume it, consume it on a condition, consume as many
as satisfy a condition, mark where a token starts, and look at the text since the mark.
-/

namespace FrontEnd

/-- A cursor together with the location of its lookahead and of the last mark. -/
structure Tracker (γ : Type) where
  cursor : γ
  here : Location
  start : Location

namespace Tracker

variable {γ ι : Type} [Cursor γ ι]

/-- A tracker at the beginning of the cursor's input. -/
def ofCursor (cursor : γ) : Tracker γ :=
  ⟨cursor, .first, .first⟩

/-- Binds the cursor to another input and goes back to the first location. -/
def reset (tracker : Tracker γ) (input : ι) : Tracker γ :=
  ofCursor (Cursor.reset tracker.cursor input)

/-- The lookahead, `none` at the end of the input. -/
def peek (tracker : Tracker γ) : Option Char :=
  Cursor.peek tracker.cursor

/-- Whether nothing is left to read. -/
def isDone (tracker : Tracker γ) : Bool :=
  tracker.peek.isNone

/-- The text consumed since the last mark. -/
def text (tracker : Tracker γ) : String :=
  Cursor.lexeme tracker.cursor

/-- The failed read that ended the input early, if one did. -/
def failure? (tracker : Tracker γ) : Option ReadFailure :=
  Cursor.failure? tracker.cursor

/-- Consumes the lookahead and moves behind it; at the end of the input nothing changes. -/
def advance (tracker : Tracker γ) : Tracker γ :=
  match tracker.peek with
  | none => tracker
  | some character =>
    { tracker with
      cursor := Cursor.advance tracker.cursor
      here := tracker.here.past character (Cursor.width tracker.cursor) }

/-- Marks the lookahead as the start of the next token and drops the text before it. -/
def mark (tracker : Tracker γ) : Tracker γ :=
  { tracker with cursor := Cursor.mark tracker.cursor, start := tracker.here }

/-- Consumes the lookahead if `accept` holds for it, and says whether it did. -/
def takeIf (tracker : Tracker γ) (accept : Char → Bool) : Bool × Tracker γ :=
  match tracker.peek with
  | none => (false, tracker)
  | some character => if accept character then (true, tracker.advance) else (false, tracker)

/-- Consumes the lookahead if it is the given character, and says whether it did. -/
def takeChar (tracker : Tracker γ) (character : Char) : Bool × Tracker γ :=
  tracker.takeIf (· == character)

/-- The index in `keywords` of the text consumed since the last mark. -/
def keyword? (tracker : Tracker γ) (keywords : Keywords) : Option Nat :=
  keywords.lookup tracker.text

/-- Consuming a lookahead leaves less to read. -/
theorem remaining_advance {tracker : Tracker γ} (hpeek : tracker.peek.isSome) :
    Cursor.remaining tracker.advance.cursor < Cursor.remaining tracker.cursor := by
  obtain ⟨character, hcharacter⟩ := Option.isSome_iff_exists.mp hpeek
  have hadvance : tracker.advance.cursor = Cursor.advance tracker.cursor := by
    simp [advance, hcharacter]
  rw [hadvance]
  exact Cursor.remaining_advance tracker.cursor hpeek

/-- Consumes characters as long as `accept` holds, counting them from `count` on. -/
def takeWhileFrom (accept : Char → Bool) (count : Nat) (tracker : Tracker γ) : Nat × Tracker γ :=
  match hpeek : tracker.peek with
  | none => (count, tracker)
  | some character =>
    if accept character then takeWhileFrom accept (count + 1) tracker.advance else (count, tracker)
termination_by Cursor.remaining tracker.cursor
decreasing_by exact remaining_advance (by simp [hpeek])

/-- Consumes characters as long as `accept` holds, and says how many there were. -/
def takeWhile (tracker : Tracker γ) (accept : Char → Bool) : Nat × Tracker γ :=
  takeWhileFrom accept 0 tracker

end Tracker

end FrontEnd
